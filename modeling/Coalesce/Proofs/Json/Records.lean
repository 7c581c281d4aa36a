import Mathlib.Data.List.Nodup
import Coalesce.Proofs.Json.Lists

namespace Coalesce.Json

open Reader

/-- A field of a record with what its values look like. -/
structure Slot (σ : Type) : Type 1 where
  Part : Type
  name : String
  read : Reader Part
  get : σ → Option Part
  set : σ → Part → σ
  Text : Part → List Char → Prop
  reads : Reads read Text

variable {σ α : Type}

def Slot.field (f : Slot σ) : Field σ :=
  ⟨f.name, fun x => (f.get x).isSome, fun x => do return f.set x (← f.read)⟩

theorem Slot.run_read {f : Slot σ} {p : f.Part} {b u r : List Char} (hb : Blanks b)
    (hu : f.Text p u) (hr : Apart r) (x : σ) :
    run (f.field.read x) (b ++ (u ++ r)) = .ok (f.set x p, r) :=
  (run_bind_of_ok (f.reads.complete hb hu hr)).trans (run_pure _ _)

theorem Slot.of_run_read {f : Slot σ} {x y : σ} {s r : List Char}
    (h : run (f.field.read x) s = .ok (y, r)) :
    ∃ p b u, Blanks b ∧ f.Text p u ∧ f.set x p = y ∧ s = b ++ (u ++ r) := by
  obtain ⟨p, q, hp, h⟩ := run_bind_eq_ok.mp h
  obtain ⟨hy, rfl⟩ := run_pure_eq_ok.mp h
  obtain ⟨b, u, hb, hu, hs⟩ := f.reads.sound hp
  exact ⟨p, b, u, hb, hu, hy, hs⟩

/-- The parts of a record are kept apart from each other, and there is nothing else in it. -/
structure Record.Slots (R : Record σ α) (fs : List (Slot σ)) : Prop where
  fields : R.fields = fs.map Slot.field
  nodup : (fs.map Slot.name).Nodup
  get_set : ∀ f ∈ fs, ∀ (x : σ) (p : f.Part), f.get (f.set x p) = some p
  frame : ∀ f ∈ fs, ∀ g ∈ fs, f.name ≠ g.name → ∀ (x : σ) (p : f.Part), g.get (f.set x p) = g.get x
  empty : ∀ f ∈ fs, f.get R.empty = none
  ext : ∀ x y : σ, (∀ f ∈ fs, f.get x = f.get y) → x = y

/-- What a member does to what is known of a record: it gives a part that was missing, or nobody
asks for it. -/
inductive Takes (fs : List (Slot σ)) : Member → σ → σ → Prop
  | part {f : Slot σ} {u : List Char} {x : σ} {p : f.Part} : f ∈ fs → f.get x = none → f.Text p u →
      Takes fs ⟨f.name, u⟩ x (f.set x p)
  | other {m : Member} {x : σ} : (∀ f ∈ fs, f.name ≠ m.key) → Value m.value → Takes fs m x x

/-- The parts that the elements of an array give, as many as there are. -/
inductive Fills : List (Slot σ) → List (List Char) → σ → σ → Prop
  | nil {fs : List (Slot σ)} {x : σ} : Fills fs [] x x
  | cons {f : Slot σ} {fs : List (Slot σ)} {u : List Char} {us : List (List Char)} {x y : σ}
      {p : f.Part} : f.Text p u → Fills fs us (f.set x p) y → Fills (f :: fs) (u :: us) x y

theorem Member.Text.parts {m : Member} {u : List Char} (h : m.Text u) : ∃ k b b',
    StringText m.key k ∧ Blanks b ∧ Blanks b' ∧ u = k ++ (b ++ ':' :: (b' ++ m.value)) := by
  obtain ⟨hk, hb, hb'⟩ := h
  exact ⟨_, _, _, hk, hb, hb', rfl⟩

theorem Member.Text.front {m : Member} {u : List Char} (h : m.Text u) : ∃ v, u = '"' :: v := by
  obtain ⟨⟨w, -, rfl⟩, -, -⟩ := h
  exact ⟨_, rfl⟩

namespace Record

section Members

variable {R : Record σ α} {fs : List (Slot σ)}

theorem Slots.eq_of_name (h : R.Slots fs) {f g : Slot σ} (hf : f ∈ fs) (hg : g ∈ fs)
    (hname : f.name = g.name) : f = g :=
  List.inj_on_of_nodup_map h.nodup hf hg hname

theorem Slots.find_eq (h : R.Slots fs) {f : Slot σ} (hf : f ∈ fs) :
    R.fields.find? (·.name = f.name) = some f.field := by
  rw [h.fields, List.find?_map]
  cases hg : fs.find? ((fun g => decide (g.name = f.name)) ∘ Slot.field) with
  | none =>
    have := List.find?_eq_none.mp hg f hf
    simp [Slot.field] at this
  | some g =>
    have hsome := List.find?_some hg
    have hname : g.name = f.name := of_decide_eq_true hsome
    rw [h.eq_of_name (List.mem_of_find?_eq_some hg) hf hname]
    rfl

theorem Slots.find_none (h : R.Slots fs) {key : String} (hkey : ∀ f ∈ fs, f.name ≠ key) :
    R.fields.find? (·.name = key) = none := by
  rw [h.fields, List.find?_map, Option.map_eq_none_iff, List.find?_eq_none]
  intro f hf
  exact fun hname => hkey f hf (of_decide_eq_true hname)

theorem Slots.run_member (h : R.Slots fs) {m : Member} {v r : List Char} {x y : σ}
    (hm : m.Text ('"' :: v)) (hxy : Takes fs m x y) (hr : Apart r) :
    run (R.member x) (v ++ r) = .ok (.ok y, r) := by
  obtain ⟨k, b, b', hk, hb, hb', hu⟩ := hm.parts
  have hkey : run text (v ++ r) = .ok (m.key, b ++ ':' :: (b' ++ (m.value ++ r))) := by
    refine run_text_iff.mpr ⟨k, hk, ?_⟩
    rw [← List.cons_append, hu]
    simp
  unfold member
  rw [run_bind_of_ok hkey]
  cases hxy with
  | part hf hget hp =>
    rename_i f u p
    rw [h.find_eq hf]
    have hnot : ¬f.field.filled x := by simp [Slot.field, hget]
    have hread := Slot.run_read hb' hp hr x
    dsimp only
    rw [if_neg hnot, run_bind_of_ok (run_colon hb _), run_bind_of_ok hread, run_pure]
  | other hkey hv =>
    have hskip := reads_value.complete (a := ()) hb' hv hr
    rw [h.find_none hkey]
    dsimp only
    rw [run_bind_of_ok (run_colon hb _), run_bind_of_ok hskip, run_pure]

theorem Slots.of_run_member (h : R.Slots fs) {s r : List Char} {x y : σ}
    (hrun : run (R.member x) s = .ok (.ok y, r)) :
    ∃ m u, m.Text u ∧ Takes fs m x y ∧ '"' :: s = u ++ r := by
  obtain ⟨key, q, hkey, hrun⟩ := run_bind_eq_ok.mp hrun
  obtain ⟨k, hk, hs⟩ := run_text_iff.mp hkey
  by_cases hf : ∃ f ∈ fs, f.name = key
  · obtain ⟨f, hf, rfl⟩ := hf
    rw [h.find_eq hf] at hrun
    dsimp only at hrun
    split at hrun
    · cases (run_pure_eq_ok.mp hrun).1
    · rename_i hfilled
      obtain ⟨_, q₁, hcolon, hrun⟩ := run_bind_eq_ok.mp hrun
      obtain ⟨z, q₂, hread, hrun⟩ := run_bind_eq_ok.mp hrun
      obtain ⟨hy, rfl⟩ := run_pure_eq_ok.mp hrun
      obtain ⟨b, hb, rfl⟩ := of_run_colon hcolon
      obtain ⟨p, b', u, hb', hu, hz, rfl⟩ := Slot.of_run_read hread
      obtain rfl : f.set x p = y := hz.trans (Except.ok.inj hy)
      have hget : f.get x = none := by simpa [Slot.field] using hfilled
      exact ⟨⟨f.name, u⟩, _, .mk hk hb hb', .part hf hget hu, by simp [hs]⟩
  · have hother : ∀ f ∈ fs, f.name ≠ key := fun f hf' hname => hf ⟨f, hf', hname⟩
    rw [h.find_none hother] at hrun
    obtain ⟨_, q₁, hcolon, hrun⟩ := run_bind_eq_ok.mp hrun
    obtain ⟨_, q₂, hskip, hrun⟩ := run_bind_eq_ok.mp hrun
    obtain ⟨hy, rfl⟩ := run_pure_eq_ok.mp hrun
    obtain ⟨b, hb, rfl⟩ := of_run_colon hcolon
    obtain ⟨b', u, hb', hu, rfl⟩ := reads_value.sound hskip
    obtain rfl : x = y := Except.ok.inj hy
    exact ⟨⟨key, u⟩, _, .mk hk hb hb', .other hother hu, by simp [hs]⟩

theorem Slots.readsItem (h : R.Slots fs) :
    ReadsItem (fun x => do keyStart; R.member x) Member.Text (Takes fs) where
  sound {x y s r} hrun := by
    obtain ⟨_, q, hstart, hrun⟩ := run_bind_eq_ok.mp hrun
    obtain ⟨m, u, hm, hxy, hq⟩ := h.of_run_member hrun
    obtain ⟨-, hstart⟩ | ⟨b, c, t, hb, -, hs, hstart⟩ := front_of_run hstart
    · cases hstart
    · dsimp only at hstart
      split at hstart
      · rename_i hc
        obtain rfl : t = q := by simpa using hstart
        exact ⟨b, m, u, hb, hm, hxy, by rw [hs, hc, hq]⟩
      · split at hstart <;> cases hstart
  complete {m x y b u r} hb hm hxy hr := by
    obtain ⟨v, rfl⟩ := Member.Text.front hm
    have hstart : run keyStart (b ++ ('"' :: v ++ r)) = .ok ((), v ++ r) := by
      refine (run_front _ hb not_blank_quote _).trans ?_
      dsimp only
      rw [if_pos rfl]
      rfl
    exact (run_bind_of_ok hstart).trans (h.run_member hm hxy hr)

theorem Slots.run_members (h : R.Slots fs) {ms : List Member} {t r : List Char} {x : σ}
    (hms : IsObject ms ('{' :: t)) (hx : Through (Takes fs) ms R.empty x) :
    run R.members (t ++ r) = .ok (.ok x, Bracket.curly.close :: r) := by
  unfold members
  cases hms with
  | nil hb =>
    cases hx
    rw [List.append_assoc, List.singleton_append]
    exact run_front _ hb (not_blank_close .curly) r
  | cons hb hm hw =>
    cases hx with
    | cons hstep hx =>
      obtain ⟨v, rfl⟩ := hm.front
      have hfirst := h.run_member hm hstep (hw.apart (apart_close .curly r))
      have hmore := h.readsItem.run_items (k := .curly) hw hx r
      simp only [List.append_assoc, List.cons_append, List.nil_append]
      rw [run_front _ hb not_blank_quote]
      exact (run_advance_bind _ _ _).trans ((run_bind_of_ok hfirst).trans hmore)

theorem Slots.of_run_members (h : R.Slots fs) {s q : List Char} {x : σ}
    (hrun : run R.members s = .ok (.ok x, q)) : ∃ ms t r, IsObject ms ('{' :: t) ∧
      Through (Takes fs) ms R.empty x ∧ s = t ++ r ∧ q = Bracket.curly.close :: r := by
  obtain ⟨-, h'⟩ | ⟨b, c, t, hb, -, hs, h'⟩ := front_of_run hrun
  · cases h'
  dsimp only at h'
  split at h'
  · rename_i hc
    obtain ⟨hx, rfl⟩ := run_pure_eq_ok.mp h'
    obtain rfl : R.empty = x := Except.ok.inj hx
    exact ⟨[], _, t, .nil hb, .nil, by simp [hs, hc], by rw [hc]; rfl⟩
  split at h'
  · rename_i hc
    rw [run_advance_bind] at h'
    obtain ⟨o, q', hfirst, h'⟩ := run_bind_eq_ok.mp h'
    cases o with
    | error e => cases (run_pure_eq_ok.mp h').1
    | ok y =>
      obtain ⟨m, u, hm, hy, ht⟩ := h.of_run_member hfirst
      obtain ⟨ms, w, r, hw, hx, rfl, rfl⟩ := h.readsItem.of_run_items h'
      exact ⟨m :: ms, _, r, .cons hb hm hw, .cons hy hx, by simp [hs, hc, ht, Bracket.close], rfl⟩
  · cases h'

theorem Slots.run_ofObject (h : R.Slots fs) {ms : List Member} {t r : List Char} {x : σ} {a : α}
    (hms : IsObject ms ('{' :: t)) (hx : Through (Takes fs) ms R.empty x)
    (ha : R.finish x = .ok a) : run R.ofObject (t ++ r) = .ok (a, r) := by
  unfold ofObject
  rw [run_bind_of_ok (h.run_members hms hx), run_bind_of_ok (run_closeIfNext .curly r)]
  simp [ha]

theorem Slots.of_run_ofObject (h : R.Slots fs) {s r : List Char} {a : α}
    (hrun : run R.ofObject s = .ok (a, r)) : ∃ ms x t, IsObject ms ('{' :: t) ∧
      Through (Takes fs) ms R.empty x ∧ R.finish x = .ok a ∧ s = t ++ r := by
  obtain ⟨o, q, hmembers, hrun⟩ := run_bind_eq_ok.mp hrun
  obtain ⟨_, q', hclose, hrun⟩ := run_bind_eq_ok.mp hrun
  cases o with
  | error c => cases hrun
  | ok x =>
    obtain ⟨ms, t, r', hms, hx, hs, rfl⟩ := h.of_run_members hmembers
    rw [run_closeIfNext] at hclose
    cases hclose
    dsimp only at hrun
    split at hrun
    · rename_i ha
      obtain ⟨rfl, rfl⟩ := run_pure_eq_ok.mp hrun
      exact ⟨ms, x, t, hms, hx, ha, hs⟩
    · cases hrun

end Members

section Elements

variable {R : Record σ α} {fs : List (Slot σ)} {f : Slot σ} {x : σ}

/-- Another element, and those behind it. -/
def elementsFrom (f : Slot σ) (fs : List (Slot σ)) (x : σ) : Reader (σ × Nat) := do
  let (y, n) ← elements (fs.map Slot.field) false (← f.field.read x)
  return (y, n + 1)

theorem run_elements_first (s : List Char) :
    run (elements (f.field :: fs.map Slot.field) true x) s =
      run (do if ← elements.startsElement then elementsFrom f fs x else pure (x, 0)) s := rfl

theorem run_elements_next (s : List Char) :
    run (elements (f.field :: fs.map Slot.field) false x) s =
      run (do
        if ← another .square then do
          elementStart
          elementsFrom f fs x
        else pure (x, 0)) s := rfl

theorem run_endArray {b : List Char} (hb : Blanks b) (r : List Char) :
    run endArray (b ++ ']' :: r) = .ok ((), r) := run_front _ hb (not_blank_close .square) r

theorem of_run_endArray {s r : List Char} {u : Unit} (h : run endArray s = .ok (u, r)) :
    ∃ b, Blanks b ∧ s = b ++ ']' :: r := by
  obtain ⟨-, h⟩ | ⟨b, c, t, hb, -, hs, h⟩ := front_of_run h
  · cases h
  dsimp only at h
  split at h
  · rename_i hc
    cases h
    exact ⟨b, hb, by rw [hs, hc]; rfl⟩
  split at h
  · obtain ⟨_, q, -, hcomma⟩ := run_bind_eq_ok.mp h
    obtain ⟨-, h'⟩ | ⟨_, _, _, -, -, -, h'⟩ := front_of_run hcomma
    · cases h'
    · split at h' <;> cases h'
  · cases h

/-- Behind an element: those that still follow, up to the end of the array. -/
theorem run_elements {us : List (List Char)} {t : List Char} {y : σ} (ht : Further Eq us t)
    (hy : Fills fs us x y) (r : List Char) : ∃ n b, Blanks b ∧
      run (elements (fs.map Slot.field) false x) (t ++ ']' :: r) = .ok ((y, n), b ++ ']' :: r) := by
  induction ht generalizing fs x with
  | nil hb =>
    -- The array may end before all parts are given.
    cases hy
    cases fs with
    | nil => exact ⟨0, _, hb, rfl⟩
    | cons f fs =>
      refine ⟨0, [], .nil, ?_⟩
      rw [List.map_cons, run_elements_next]
      exact run_bind_of_ok (run_another_close (k := .square) hb r)
  | cons hb hb' hu ht ih =>
    cases hu
    cases hy with
    | @cons f fs _ _ _ _ p hp hy =>
      obtain ⟨n, b, hb₂, hrest⟩ := ih hy
      refine ⟨n + 1, b, hb₂, ?_⟩
      have hread := Slot.run_read .nil hp (ht.apart (apart_close .square r)) x
      simp only [List.append_assoc, List.cons_append]
      rw [List.map_cons, run_elements_next, run_bind_of_ok (run_another_comma hb _), if_pos rfl,
        run_bind_of_ok (run_elementStart hb' (f.reads.front hp) _)]
      exact (run_bind_of_ok hread).trans ((run_bind_of_ok hrest).trans (run_pure _ _))

theorem of_run_elements {s q r : List Char} {y : σ} {n : Nat} {b : List Char} (hb : Blanks b)
    (hrun : run (elements (fs.map Slot.field) false x) s = .ok ((y, n), q))
    (hq : q = b ++ ']' :: r) :
    ∃ us t, Further Eq us t ∧ Fills fs us x y ∧ s = t ++ ']' :: r := by
  -- No more elements are read than there are parts left, so the induction is on these.
  induction fs generalizing s x y n with
  | nil =>
    obtain ⟨hy, rfl⟩ := run_pure_eq_ok.mp hrun
    cases hy
    exact ⟨[], b, .nil hb, .nil, hq⟩
  | cons f fs ih =>
    rw [List.map_cons, run_elements_next] at hrun
    obtain ⟨more, q₁, hmore, hrun⟩ := run_bind_eq_ok.mp hrun
    obtain ⟨b₁, hb₁, ⟨rfl, hs, t, ht⟩ | ⟨rfl, hs⟩⟩ := of_run_another hmore
    · obtain ⟨hy, rfl⟩ := run_pure_eq_ok.mp hrun
      cases hy
      exact ⟨[], b₁ ++ b, .nil (hb₁.append hb), .nil, by simp [hs, hq]⟩
    · rw [if_pos rfl] at hrun
      obtain ⟨_, q₂, hstart, hrun⟩ := run_bind_eq_ok.mp hrun
      obtain ⟨z, q₃, hread, hrun⟩ := run_bind_eq_ok.mp hrun
      obtain ⟨⟨y', n'⟩, q₄, hrest, hrun⟩ := run_bind_eq_ok.mp hrun
      obtain ⟨hy, rfl⟩ := run_pure_eq_ok.mp hrun
      cases hy
      obtain ⟨b₂, hb₂, rfl⟩ := of_run_elementStart hstart
      obtain ⟨p, b₃, u, hb₃, hu, rfl, rfl⟩ := Slot.of_run_read hread
      obtain ⟨us, t, ht, hfills, rfl⟩ := ih hrest
      exact ⟨u :: us, _, .cons hb₁ (hb₂.append hb₃) rfl ht, .cons hu hfills, by simp [hs]⟩

theorem run_startsElement {b : List Char} {c : Char} (hb : Blanks b) (hc : ¬Blank c)
    (s : List Char) :
    run elements.startsElement (b ++ c :: s) = .ok (decide (c ≠ ']'), c :: s) :=
  run_front _ hb hc s

theorem of_run_startsElement {s r : List Char} {more : Bool}
    (h : run elements.startsElement s = .ok (more, r)) : ∃ b, Blanks b ∧ s = b ++ r := by
  obtain ⟨-, h⟩ | ⟨b, c, t, hb, -, hs, h⟩ := front_of_run h
  · cases h
  · obtain ⟨-, rfl⟩ := run_pure_eq_ok.mp h
    exact ⟨b, hb, hs⟩

theorem Slots.run_ofArray (h : R.Slots fs) (hne : fs ≠ []) {us : List (List Char)}
    {t r : List Char} {a : α} (hus : IsArray us ('[' :: t)) (hx : Fills fs us R.empty x)
    (ha : R.finish x = .ok a) : run R.ofArray (t ++ r) = .ok (a, r) := by
  have helements : ∃ n b, Blanks b ∧
      run (elements R.fields true R.empty) (t ++ r) = .ok ((x, n), b ++ ']' :: r) := by
    obtain ⟨f, fs, rfl⟩ := List.exists_cons_of_ne_nil hne
    rw [h.fields, List.map_cons, run_elements_first]
    cases hus with
    | nil hb =>
      cases hx
      refine ⟨0, [], .nil, ?_⟩
      rw [List.append_assoc, List.singleton_append]
      exact run_bind_of_ok (run_startsElement hb (not_blank_close .square) r)
    | cons hb hu ht =>
      cases hu
      cases hx with
      | cons hp hx =>
        obtain ⟨c, v, rfl, hc, hclose⟩ := f.reads.front hp
        obtain ⟨n, b, hb₂, hrest⟩ := run_elements ht hx r
        have hread := Slot.run_read .nil hp (ht.apart (apart_close .square r)) R.empty
        refine ⟨n + 1, b, hb₂, ?_⟩
        simp only [List.append_assoc, List.cons_append, List.nil_append] at hread ⊢
        rw [run_bind_of_ok (run_startsElement hb hc _), if_pos (decide_eq_true hclose)]
        exact (run_bind_of_ok hread).trans ((run_bind_of_ok hrest).trans (run_pure _ _))
  obtain ⟨n, b, hb, hrun⟩ := helements
  unfold ofArray
  rw [run_bind_of_ok hrun]
  dsimp only
  rw [ha]
  exact (run_bind_of_ok (run_endArray hb r)).trans (run_pure _ _)

theorem Slots.of_run_ofArray (h : R.Slots fs) (hne : fs ≠ []) {s r : List Char} {a : α}
    (hrun : run R.ofArray s = .ok (a, r)) : ∃ us x t, IsArray us ('[' :: t) ∧
      Fills fs us R.empty x ∧ R.finish x = .ok a ∧ s = t ++ r := by
  obtain ⟨⟨x, n⟩, q, helements, hrun⟩ := run_bind_eq_ok.mp hrun
  dsimp only at hrun
  split at hrun
  · rename_i ha
    obtain ⟨_, q', hend, hrun⟩ := run_bind_eq_ok.mp hrun
    obtain ⟨rfl, rfl⟩ := run_pure_eq_ok.mp hrun
    obtain ⟨b, hb, hq⟩ := of_run_endArray hend
    obtain ⟨f, fs, rfl⟩ := List.exists_cons_of_ne_nil hne
    rw [h.fields, List.map_cons, run_elements_first] at helements
    obtain ⟨more, q₁, hstart, helements⟩ := run_bind_eq_ok.mp helements
    obtain ⟨b₁, hb₁, rfl⟩ := of_run_startsElement hstart
    cases more with
    | false =>
      obtain ⟨hx, rfl⟩ := run_pure_eq_ok.mp helements
      cases hx
      exact ⟨[], _, _, .nil (hb₁.append hb), .nil, ha, by simp [hq]⟩
    | true =>
      obtain ⟨z, q₂, hread, helements⟩ := run_bind_eq_ok.mp helements
      obtain ⟨⟨y, m⟩, q₃, hrest, helements⟩ := run_bind_eq_ok.mp helements
      obtain ⟨hx, rfl⟩ := run_pure_eq_ok.mp helements
      cases hx
      obtain ⟨p, b₂, u, hb₂, hu, rfl, rfl⟩ := Slot.of_run_read hread
      obtain ⟨us, t, ht, hfills, rfl⟩ := of_run_elements hb hrest hq
      exact ⟨u :: us, _, _, .cons (hb₁.append hb₂) rfl ht, .cons hu hfills, ha, by simp⟩
  · obtain ⟨_, _, -, hrun⟩ := run_bind_eq_ok.mp hrun
    cases hrun

end Elements

/-- Both forms of a record: an object whose members give its parts, or an array that does. -/
inductive Denotes (R : Record σ α) (fs : List (Slot σ)) (a : α) (s : List Char) : Prop
  | object {ms : List Member} {x : σ} : IsObject ms s → Through (Takes fs) ms R.empty x →
      R.finish x = .ok a → Denotes R fs a s
  | array {us : List (List Char)} {x : σ} : IsArray us s → Fills fs us R.empty x →
      R.finish x = .ok a → Denotes R fs a s

theorem Slots.reads {R : Record σ α} {fs : List (Slot σ)} (h : R.Slots fs) (hne : fs ≠ []) :
    Reads R.read (R.Denotes fs) := by
  refine .of_front (fun a r h => by cases h) ?_ ?_ ?_
  · intro c t r a hrun
    dsimp only at hrun
    split at hrun
    · rename_i hc
      rw [run_advance_bind] at hrun
      obtain ⟨us, x, t, hus, hx, ha, rfl⟩ := h.of_run_ofArray hne hrun
      exact ⟨_, .array hus hx ha, by rw [hc]; rfl⟩
    split at hrun
    · rename_i hc
      rw [run_advance_bind] at hrun
      obtain ⟨ms, x, t, hms, hx, ha, rfl⟩ := h.of_run_ofObject hrun
      exact ⟨_, .object hms hx ha, by rw [hc]; rfl⟩
    · exact absurd hrun (run_wrongType_ne_ok _ _ _ _)
  · intro c t r a ha hr
    dsimp only
    cases ha with
    | object hms hx ha =>
      obtain ⟨t', ht⟩ := hms.front
      cases ht
      rw [if_neg (by decide), if_pos rfl, run_advance_bind, h.run_ofObject hms hx ha]
    | array hus hx ha =>
      obtain ⟨t', ht⟩ := hus.front
      cases ht
      rw [if_pos rfl, run_advance_bind, h.run_ofArray hne hus hx ha]
  · intro a u ha
    cases ha with
    | object hms =>
      obtain ⟨t, rfl⟩ := hms.front
      exact ⟨_, t, rfl, not_blank_opening .curly, by decide⟩
    | array hus =>
      obtain ⟨t, rfl⟩ := hus.front
      exact ⟨_, t, rfl, not_blank_opening .square, by decide⟩

section Parts

variable {R : Record σ α} {fs : List (Slot σ)}

theorem valuesOf_cons (key : String) (m : Member) (ms : List Member) : valuesOf key (m :: ms) =
    if m.key = key then m.value :: valuesOf key ms else valuesOf key ms := by
  unfold valuesOf
  rw [List.filter_cons]
  split <;> simp_all

/-- What the texts `us` make of a part between `x` and `y`: none of them leaves it as it is, one
gives it where it was missing. -/
inductive Gives (f : Slot σ) (x y : σ) : List (List Char) → Prop
  | none : f.get y = f.get x → Gives f x y []
  | one {u : List Char} {p : f.Part} : f.get x = .none → f.Text p u → f.get y = some p →
      Gives f x y [u]

/-- Only the part itself matters of what was known before. -/
theorem Gives.congr {f : Slot σ} {x x' y : σ} {us : List (List Char)} (h : Gives f x y us)
    (hx : f.get x = f.get x') : Gives f x' y us := by
  cases h with
  | none hy => exact .none (hy.trans hx)
  | one hnone hp hy => exact .one (hx ▸ hnone) hp hy

theorem Slots.gives_of_through (h : R.Slots fs) {ms : List Member} {x y : σ}
    (hxy : Through (Takes fs) ms x y) : (∀ f ∈ fs, Gives f x y (valuesOf f.name ms)) ∧
      ∀ m ∈ ms, (∀ f ∈ fs, f.name ≠ m.key) → Value m.value := by
  induction hxy with
  | nil => exact ⟨fun f _ => .none rfl, List.forall_mem_nil _⟩
  | @cons m ms x y z hstep _ ih =>
    obtain ⟨hgives, hothers⟩ := ih
    cases hstep with
    | @part f u x p hf hget hp =>
      refine ⟨fun g hg => ?_, List.forall_mem_cons.mpr ⟨fun hno => absurd rfl (hno f hf), hothers⟩⟩
      have hg' := hgives g hg
      rw [valuesOf_cons]
      by_cases hname : f.name = g.name
      · obtain rfl := h.eq_of_name hf hg hname
        have hset := h.get_set f hf x p
        rw [if_pos rfl]
        -- The part is no longer missing, so no other member gives it.
        generalize valuesOf f.name ms = us at hg'
        cases hg' with
        | none hz => exact .one hget hp (hz.trans hset)
        | one hnone => rw [hset] at hnone; cases hnone
      · rw [if_neg hname]
        exact hg'.congr (h.frame f hf g hg hname x p)
    | other hkey hv =>
      refine ⟨fun g hg => ?_, List.forall_mem_cons.mpr ⟨fun _ => hv, hothers⟩⟩
      rw [valuesOf_cons, if_neg (Ne.symm (hkey g hg))]
      exact hgives g hg

theorem Slots.through_of_gives (h : R.Slots fs) {ms : List Member} {x y : σ}
    (hgives : ∀ f ∈ fs, Gives f x y (valuesOf f.name ms))
    (hothers : ∀ m ∈ ms, (∀ f ∈ fs, f.name ≠ m.key) → Value m.value) :
    Through (Takes fs) ms x y := by
  induction ms generalizing x with
  | nil =>
    have hxy : x = y := h.ext x y fun f hf => by
      cases hgives f hf with
      | none hy => exact hy.symm
    exact hxy ▸ .nil
  | cons m ms ih =>
    obtain ⟨hm, hrest⟩ := List.forall_mem_cons.mp hothers
    by_cases hf : ∃ f ∈ fs, f.name = m.key
    · obtain ⟨f, hf, hname⟩ := hf
      obtain ⟨key, u⟩ := m
      obtain rfl : f.name = key := hname
      have hf' := hgives f hf
      rw [valuesOf_cons, if_pos rfl] at hf'
      generalize hus : valuesOf f.name ms = us at hf'
      cases hf' with
      | @one _ p hget hp hy =>
        refine .cons (.part hf hget hp) (ih (fun g hg => ?_) hrest)
        by_cases hfg : f.name = g.name
        · obtain rfl := h.eq_of_name hf hg hfg
          rw [hus]
          exact .none (hy.trans (h.get_set f hf x p).symm)
        · have hg' := hgives g hg
          rw [valuesOf_cons, if_neg hfg] at hg'
          exact hg'.congr (h.frame f hf g hg hfg x p).symm
    · have hother : ∀ f ∈ fs, f.name ≠ m.key := fun f hf' hname => hf ⟨f, hf', hname⟩
      refine .cons (.other hother (hm hother)) (ih (fun g hg => ?_) hrest)
      have hg' := hgives g hg
      rwa [valuesOf_cons, if_neg (Ne.symm (hother g hg))] at hg'

/-- A record is complete with each of its parts given once. -/
theorem Slots.through_empty_iff (h : R.Slots fs) {ms : List Member} {y : σ}
    (hy : ∀ f ∈ fs, (f.get y).isSome) : Through (Takes fs) ms R.empty y ↔
      (∀ f ∈ fs, ∀ p, f.get y = some p → Once f.name ms (f.Text p)) ∧
        ∀ m ∈ ms, (∀ f ∈ fs, f.name ≠ m.key) → Value m.value := by
  constructor
  · intro hthrough
    obtain ⟨hgives, hothers⟩ := h.gives_of_through hthrough
    refine ⟨fun f hf p hp => ?_, hothers⟩
    have hempty := h.empty f hf
    have hf' := hgives f hf
    unfold Once
    generalize valuesOf f.name ms = us at hf'
    cases hf' with
    | none hnone =>
      rw [hp, hempty] at hnone
      cases hnone
    | one _ hq hget =>
      rw [hp] at hget
      cases hget
      exact ⟨_, rfl, hq⟩
  · rintro ⟨honce, hothers⟩
    refine h.through_of_gives (fun f hf => ?_) hothers
    obtain ⟨p, hp⟩ := Option.isSome_iff_exists.mp (hy f hf)
    obtain ⟨u, hu, hq⟩ := honce f hf p hp
    rw [hu]
    exact .one (h.empty f hf) hq hp

end Parts

end Record

end Coalesce.Json
