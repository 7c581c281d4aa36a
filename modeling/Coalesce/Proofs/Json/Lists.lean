import Coalesce.Json.Record
import Coalesce.Proofs.Json.Skipped

namespace Coalesce.Json

open Reader

variable {ε σ α : Type}

/-- One item after the other takes `x` to `y`, where `T` tells what each of them does. -/
inductive Through (T : α → σ → σ → Prop) : List α → σ → σ → Prop
  | nil {x : σ} : Through T [] x x
  | cons {a : α} {as : List α} {x y z : σ} : T a x y → Through T as y z → Through T (a :: as) x z

section Items

variable {k : Bracket} {b s r : List Char}

theorem run_another (k : Bracket) (s : List Char) : run (another k) s =
    run (do
      match ← peekPastBlanks with
      | none => stop k.ended
      | some c =>
        if c = k.close then pure false
        else if c = ',' then do advance; pure true
        else stopAhead k.unclosed) s := by
  rw [run_eq_forget, another, run_peekPastBlanks_bind]
  split
  · rename_i h
    rw [h]
    rfl
  · rename_i c t hc h
    rw [h]
    dsimp only [List.head?_cons]
    split
    · rfl
    split
    · rfl
    · rfl

theorem run_another_close (hb : Blanks b) (r : List Char) :
    run (another k) (b ++ k.close :: r) = .ok (false, k.close :: r) := by
  rw [run_another, run_front _ hb (not_blank_close k)]
  dsimp only
  rw [if_pos rfl, run_pure]

theorem run_another_comma (hb : Blanks b) (r : List Char) :
    run (another k) (b ++ ',' :: r) = .ok (true, r) := by
  have hne : ',' ≠ k.close := by cases k <;> decide
  rw [run_another, run_front _ hb (by simp [Blank])]
  dsimp only
  rw [if_neg hne, if_pos rfl, run_advance_bind, run_pure]

theorem of_run_another {more : Bool} (h : run (another k) s = .ok (more, r)) : ∃ b, Blanks b ∧
    (more = false ∧ s = b ++ r ∧ (∃ t, r = k.close :: t) ∨ more = true ∧ s = b ++ ',' :: r) := by
  rw [run_another] at h
  obtain ⟨-, h⟩ | ⟨b, c, t, hb, -, hs, h⟩ := front_of_run h
  · cases h
  refine ⟨b, hb, ?_⟩
  dsimp only at h
  split at h
  · rename_i hc
    obtain ⟨rfl, rfl⟩ := run_pure_eq_ok.mp h
    exact .inl ⟨rfl, hs, t, by rw [hc]⟩
  split at h
  · rename_i hc
    rw [run_advance_bind] at h
    obtain ⟨rfl, rfl⟩ := run_pure_eq_ok.mp h
    exact .inr ⟨rfl, by rw [hs, hc]⟩
  · cases h

/-- The items that are still to come, and what they make of `x`. -/
def itemsFrom (k : Bracket) (item : σ → Reader (Except ε σ)) (x : σ) : Reader (Except ε σ) :=
  items k item x

variable {item : σ → Reader (Except ε σ)}

theorem run_itemsFrom (x : σ) (s : List Char) : run (itemsFrom k item x) s =
    run (do
      if ← another k then
        match ← item x with
        | .error c => pure (.error c)
        | .ok y => itemsFrom k item y
      else pure (.ok x)) s := by
  -- `items` matches on what `another` gives, since that is shorter than what it was given.
  have hrun {y : Bool × Rest s} (h : another k s = .ok y) :
      run (another k) s = .ok (y.1, y.2.val) := (run_eq_forget _ s).trans (congrArg forget h)
  rw [run_eq_forget, itemsFrom, items.eq_def]
  split
  · rename_i h
    rw [run_bind, run_eq_forget (another k), h]
    rfl
  · rename_i h
    rw [run_bind_of_ok (hrun h)]
    rfl
  · rename_i t ht h
    rw [run_bind_of_ok (hrun h)]
    dsimp only
    rw [if_pos rfl, run_bind, run_eq_forget (item x)]
    cases item x t with
    | error e => rfl
    | ok y =>
      obtain ⟨o, q, hq⟩ := y
      cases o with
      | error c => rfl
      | ok y => exact forget_shorten _ _

/-- What `item` reads behind a comma is what `I` calls an item, and it does to what is known so far
what `T` says. -/
structure ReadsItem (item : σ → Reader (Except ε σ)) (I : α → List Char → Prop)
    (T : α → σ → σ → Prop) : Prop where
  sound : ∀ {x y : σ} {s r : List Char}, run (item x) s = .ok (.ok y, r) →
    ∃ b a u, Blanks b ∧ I a u ∧ T a x y ∧ s = b ++ (u ++ r)
  complete : ∀ {a : α} {x y : σ} {b u r : List Char}, Blanks b → I a u → T a x y → Apart r →
    run (item x) (b ++ (u ++ r)) = .ok (.ok y, r)

variable {I : α → List Char → Prop} {T : α → σ → σ → Prop}

theorem ReadsItem.run_items (h : ReadsItem item I T) {as : List α} {t : List Char} {x y : σ}
    (ht : Further I as t) (hxy : Through T as x y) (r : List Char) :
    run (itemsFrom k item x) (t ++ k.close :: r) = .ok (.ok y, k.close :: r) := by
  induction ht generalizing x with
  | nil hb =>
    cases hxy
    rw [run_itemsFrom, run_bind_of_ok (run_another_close hb r)]
    rfl
  | cons hb hb' hu ht ih =>
    cases hxy with
    | cons hstep hxy =>
      simp only [List.append_assoc, List.cons_append]
      rw [run_itemsFrom, run_bind_of_ok (run_another_comma hb _), if_pos rfl,
        run_bind_of_ok (h.complete hb' hu hstep (ht.apart (apart_close k r)))]
      exact ih hxy

theorem ReadsItem.of_run_items (h : ReadsItem item I T) {x y : σ} {s r : List Char}
    (hrun : run (itemsFrom k item x) s = .ok (.ok y, r)) :
    ∃ as t r', Further I as t ∧ Through T as x y ∧ s = t ++ r ∧ r = k.close :: r' := by
  induction hn : s.length using Nat.strongRecOn generalizing x s with
  | ind n ih =>
    rw [run_itemsFrom] at hrun
    obtain ⟨more, q, hmore, h'⟩ := run_bind_eq_ok.mp hrun
    obtain ⟨b, hb, ⟨rfl, hs, q', hq⟩ | ⟨rfl, hs⟩⟩ := of_run_another hmore
    · obtain ⟨hy, rfl⟩ := run_pure_eq_ok.mp h'
      cases hy
      exact ⟨[], b, q', .nil hb, .nil, hs, hq⟩
    · rw [if_pos rfl] at h'
      obtain ⟨o, q', hitem, h'⟩ := run_bind_eq_ok.mp h'
      cases o with
      | error c => cases (run_pure_eq_ok.mp h').1
      | ok z =>
        obtain ⟨b', a, u, hb', hu, hstep, hq⟩ := h.sound hitem
        have hlt : q'.length < n := by
          simp only [← hn, hs, hq, List.length_append, List.length_cons]
          omega
        obtain ⟨as, t, r', ht, hthrough, hq', hr⟩ := ih q'.length hlt h' rfl
        exact ⟨a :: as, _, r', .cons hb hb' hu ht, .cons hstep hthrough, by simp [hs, hq, hq'], hr⟩

end Items

theorem run_closeIfNext (k : Bracket) (r : List Char) :
    run (closeIfNext k) (k.close :: r) = .ok ((), r) := by
  refine (run_front _ .nil (not_blank_close k) r).trans ?_
  dsimp only
  rw [if_pos rfl]
  rfl

theorem run_elementStart {b u : List Char} (hb : Blanks b)
    (hu : ∃ c t, u = c :: t ∧ ¬Blank c ∧ c ≠ ']') (r : List Char) :
    run elementStart (b ++ (u ++ r)) = .ok ((), u ++ r) := by
  obtain ⟨c, t, rfl, hc, hclose⟩ := hu
  refine (run_front _ hb hc _).trans ?_
  dsimp only
  rw [if_neg hclose]
  rfl

theorem of_run_elementStart {s r : List Char} {x : Unit} (h : run elementStart s = .ok (x, r)) :
    ∃ b, Blanks b ∧ s = b ++ r := by
  obtain ⟨-, h⟩ | ⟨b, c, t, hb, -, hs, h⟩ := front_of_run h
  · cases h
  · dsimp only at h
    split at h
    · cases h
    · obtain ⟨-, rfl⟩ := run_pure_eq_ok.mp h
      exact ⟨b, hb, hs⟩

section Arrays

variable {element : Reader α} {G : α → List Char → Prop}

theorem readsItem_nextElement {E : Type} (h : Reads element G) :
    ReadsItem (nextElement element : List α → Reader (Except E (List α))) G
      fun a xs ys => ys = a :: xs where
  sound {xs ys s r} hrun := by
    obtain ⟨_, q, hstart, hrun⟩ := run_bind_eq_ok.mp hrun
    obtain ⟨a, q', ha, hrun⟩ := run_bind_eq_ok.mp hrun
    obtain ⟨hys, rfl⟩ := run_pure_eq_ok.mp hrun
    obtain ⟨b, hb, rfl⟩ := of_run_elementStart hstart
    obtain ⟨b', u, hb', hu, rfl⟩ := h.sound ha
    exact ⟨b ++ b', a, u, hb.append hb', hu, (Except.ok.inj hys).symm, by simp⟩
  complete {a xs ys b u r} hb hu hys hr := by
    unfold nextElement
    rw [run_bind_of_ok (run_elementStart hb (h.front hu) r)]
    exact (run_bind_of_ok (h.complete .nil hu hr)).trans (by rw [run_pure, hys])

theorem through_push {as xs ys : List α} :
    Through (fun a xs ys => ys = a :: xs) as xs ys ↔ ys = as.reverse ++ xs := by
  induction as generalizing xs with
  | nil =>
    constructor
    · rintro ⟨⟩
      rfl
    · rintro rfl
      exact .nil
  | cons a as ih =>
    rw [List.reverse_cons, List.append_assoc, List.singleton_append, ← ih]
    constructor
    · rintro (_ | ⟨rfl, h⟩)
      exact h
    · exact .cons rfl

theorem Enclosed.front {o c : Char} {I : α → List Char → Prop} {as : List α} {u : List Char}
    (h : Enclosed o c I as u) : ∃ t, u = o :: t := by
  cases h <;> exact ⟨_, rfl⟩

theorem reads_array (h : Reads element G) : Reads (array element) (Enclosed '[' ']' G) := by
  refine .of_front (fun a r h => by cases h) ?_ ?_ ?_
  · intro c t r as hrun
    dsimp only at hrun
    split at hrun
    · rename_i hc
      rw [run_advance_bind] at hrun
      obtain ⟨-, h'⟩ | ⟨b, c', t', hb, hc', ht, h'⟩ := front_of_run hrun
      · cases h'
      dsimp only at h'
      split at h'
      · rename_i hclose
        rw [run_advance_bind] at h'
        obtain ⟨rfl, rfl⟩ := run_pure_eq_ok.mp h'
        exact ⟨_, .nil hb, by simp [hc, ht, hclose]⟩
      · obtain ⟨x, q, hx, h'⟩ := run_bind_eq_ok.mp h'
        obtain ⟨xs, q', hxs, h'⟩ := run_bind_eq_ok.mp h'
        obtain ⟨_, q'', hend, h'⟩ := run_bind_eq_ok.mp h'
        cases xs with
        | error e => cases e
        | ok xs =>
          obtain ⟨rfl, rfl⟩ := run_pure_eq_ok.mp h'
          obtain ⟨b', u, hb', hu, ht'⟩ := h.sound hx
          obtain ⟨as, w, r', hw, hthrough, rfl, rfl⟩ := (readsItem_nextElement h).of_run_items hxs
          rw [run_closeIfNext] at hend
          cases hend
          rw [through_push.mp hthrough, List.reverse_append, List.reverse_reverse]
          refine ⟨_, .cons (hb.append hb') hu hw, ?_⟩
          simp [hc, ht, ht', Bracket.close]
    · exact absurd hrun (run_wrongType_ne_ok _ _ _ _)
  · intro c t r as has hr
    dsimp only
    cases has with
    | nil hb =>
      rw [if_pos rfl, run_advance_bind, List.append_assoc, List.singleton_append]
      exact run_front _ hb (not_blank_close .square) r
    | @cons a as b u w hb hu hw =>
      obtain ⟨d, u, rfl, hd, hclose⟩ := h.front hu
      have ha := h.complete .nil hu (hw.apart (apart_close .square r))
      have has := (readsItem_nextElement (E := Empty) h).run_items (k := .square) hw
        (through_push.mpr rfl : Through _ as [a] _) r
      rw [if_pos rfl, run_advance_bind]
      simp only [List.append_assoc, List.cons_append, List.nil_append] at ha ⊢
      rw [run_front _ hb hd]
      dsimp only
      rw [if_neg hclose]
      refine (run_bind_of_ok ha).trans ((run_bind_of_ok has).trans ?_)
      rw [run_bind_of_ok (run_closeIfNext .square r)]
      simp
  · intro as u has
    obtain ⟨t, rfl⟩ := has.front
    exact ⟨'[', t, rfl, not_blank_opening .square, by decide⟩

end Arrays

end Coalesce.Json
