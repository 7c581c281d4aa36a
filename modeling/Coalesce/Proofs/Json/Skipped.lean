import Coalesce.Json.Skip
import Coalesce.Proofs.Json.Numbers

namespace Coalesce.Json

open Reader

namespace Bracket

def opening : Bracket → Char
  | square => '['
  | curly => '{'

def Item : Bracket → List Char → List Char → Prop
  | square => Eq
  | curly => Keyed Quoted

/-- What follows an item, the closing bracket included. -/
def Ending (b : Bracket) (s : List Char) : Prop :=
  ∃ vs t, Further b.Item vs t ∧ (∀ v ∈ vs, Value v) ∧ s = t ++ [b.close]

end Bracket

theorem Value.nest {b : Bracket} {vs : List (List Char)} {s : List Char}
    (h : Enclosed b.opening b.close b.Item vs s) (hvs : ∀ v ∈ vs, Value v) : Value s := by
  cases b with
  | square => exact .array h hvs
  | curly => exact .object h hvs

section Running

/-- Values are passed over until the brackets `bs` are closed. -/
def skipValues (bs : List Bracket) : Reader Unit := fun s => skipWithin s bs (.all s)

def skipOpen : Option (List Bracket) → Reader Unit
  | none => pure ()
  | some bs => skipValues bs

theorem forget_skipWithin {s s' : List Char} (bs : List Bracket) (q : List Char)
    (h : q.length ≤ s.length) (h' : q.length ≤ s'.length) :
    forget (skipWithin s bs ⟨q, h⟩) = forget (skipWithin s' bs ⟨q, h'⟩) := by
  induction hn : q.length using Nat.strongRecOn generalizing bs q with
  | ind n ih =>
    rw [skipWithin.eq_def s, skipWithin.eq_def s']
    dsimp only
    split
    · rfl
    · rename_i c t hc _
      cases skipFrom bs c t with
      | error e => rfl
      | ok x =>
        obtain ⟨o, r, hr⟩ := x
        cases o with
        | none => rfl
        | some bs => exact ih r.length (by rw [← hn]; exact Nat.lt_of_le_of_lt hr hc) bs r _ _ rfl

theorem run_skipValues (bs : List Bracket) (s : List Char) : run (skipValues bs) s =
    run (do
      match ← peekPastBlanks with
      | none => stop .endInValue
      | some c => do advance; skipOpen (← skipFrom bs c)) s := by
  rw [run_eq_forget, skipValues, skipWithin.eq_def, run_peekPastBlanks_bind]
  dsimp only [Rest.all]
  split
  · rename_i h
    rw [h]
    rfl
  · rename_i c t hc h
    rw [h]
    dsimp only [List.head?_cons]
    rw [run_advance_bind, run_bind, run_eq_forget (skipFrom bs c)]
    cases skipFrom bs c t with
    | error e => rfl
    | ok x =>
      obtain ⟨o, r, hr⟩ := x
      cases o with
      | none => rfl
      | some bs => exact forget_skipWithin bs r _ _

theorem run_skipValues_front (bs : List Bracket) {b : List Char} {c : Char} (hb : Blanks b)
    (hc : ¬Blank c) (t : List Char) :
    run (skipValues bs) (b ++ c :: t) = run (skipFrom bs c >>= skipOpen) t := by
  rw [run_skipValues, run_front _ hb hc]
  exact run_advance_bind _ c t

end Running

section Fronts

theorem not_blank_opening (b : Bracket) : ¬Blank b.opening := by
  cases b <;> simp [Bracket.opening, Blank]

theorem not_blank_close (b : Bracket) : ¬Blank b.close := by
  cases b <;> simp [Bracket.close, Blank]

theorem Numeral.front {u : List Char} (h : Numeral u) :
    ∃ c t, u = c :: t ∧ (c.isDigit ∧ Unsigned u ∨ c = '-' ∧ Unsigned t) := by
  obtain h | ⟨v, hv, rfl⟩ := h
  · obtain ⟨c, t, rfl, hc⟩ := h.front
    exact ⟨c, t, rfl, .inl ⟨hc, h⟩⟩
  · exact ⟨'-', v, rfl, .inr ⟨rfl, hv⟩⟩

theorem Value.front {u : List Char} (h : Value u) : ∃ c t, u = c :: t ∧ ¬Blank c ∧ c ≠ ']' := by
  cases h with
  | null => exact ⟨_, _, rfl, by simp [Blank], by decide⟩
  | true => exact ⟨_, _, rfl, by simp [Blank], by decide⟩
  | false => exact ⟨_, _, rfl, by simp [Blank], by decide⟩
  | number h =>
    obtain ⟨c, t, rfl, ⟨hc, -⟩ | ⟨rfl, -⟩⟩ := h.front
    · exact ⟨c, t, rfl, not_blank_of_isDigit hc, by rintro rfl; contradiction⟩
    · exact ⟨_, _, rfl, by simp [Blank], by decide⟩
  | string h =>
    obtain ⟨v, -, rfl⟩ := h
    exact ⟨_, _, rfl, not_blank_quote, by decide⟩
  | array h =>
    cases h with
    | nil => exact ⟨_, _, rfl, not_blank_opening .square, by decide⟩
    | cons => exact ⟨_, _, rfl, not_blank_opening .square, by decide⟩
  | object h =>
    cases h with
    | nil => exact ⟨_, _, rfl, not_blank_opening .curly, by decide⟩
    | cons => exact ⟨_, _, rfl, not_blank_opening .curly, by decide⟩

theorem Bracket.Item.front {b : Bracket} {v u : List Char} (h : b.Item v u) (hv : Value v) :
    ∃ c t, u = c :: t ∧ ¬Blank c ∧ c ≠ b.close := by
  cases b with
  | square =>
    cases h
    exact hv.front
  | curly =>
    obtain ⟨⟨w, -, rfl⟩, -, -⟩ := h
    exact ⟨_, _, rfl, not_blank_quote, by decide⟩

/-- Behind the items of a list, and before what closes it, no number goes on. -/
theorem Further.apart {α : Type} {I : α → List Char → Prop} {as : List α} {t r : List Char}
    (h : Further I as t) (hr : Apart r) : Apart (t ++ r) := by
  cases h with
  | nil hb => exact hb.apart hr
  | cons hb =>
    rw [List.append_assoc]
    exact hb.apart (by rw [List.cons_append, apart_cons]; decide)

theorem apart_close (b : Bracket) (r : List Char) : Apart (b.close :: r) := by
  cases b <;> rw [apart_cons] <;> decide

end Fronts

section Complete

def skipRest (bs : List Bracket) : Reader Unit := do skipOpen (← skipOn bs)

theorem run_colon {b : List Char} (hb : Blanks b) (r : List Char) :
    run colon (b ++ ':' :: r) = .ok ((), r) := by
  unfold colon
  rw [run_front _ hb (by simp [Blank])]
  rfl

theorem run_skipKey {k : Bracket} {b v u r : List Char} (hb : Blanks b) (hu : k.Item v u) :
    ∃ b', Blanks b' ∧ run k.skipKey (b ++ (u ++ r)) = .ok ((), b' ++ (v ++ r)) := by
  cases k with
  | square =>
    cases hu
    exact ⟨b, hb, rfl⟩
  | curly =>
    obtain ⟨⟨w, hw, rfl⟩, hb₁, hb₂⟩ := hu
    rename_i b₁ b₂
    refine ⟨b₂, hb₂, ?_⟩
    have hbody := run_skipBody hw (b₁ ++ ':' :: (b₂ ++ (v ++ r)))
    simp only [List.cons_append, List.append_assoc, List.nil_append]
    change run (peekPastBlanks >>= _) _ = _
    rw [run_front _ hb not_blank_quote]
    dsimp only
    rw [if_pos rfl, run_advance_bind]
    change run (skipBody >>= fun _ => colon) _ = _
    rw [run_bind_of_ok hbody, run_colon hb₁]

variable {k : Bracket} {bs : List Bracket} {b r : List Char}

/-- The value whose key comes next, and what follows it. -/
def skipItem (k : Bracket) (bs : List Bracket) : Reader Unit := do k.skipKey; skipValues (k :: bs)

theorem run_skipKey_open (s : List Char) :
    run (k.skipKey >>= fun _ => pure (some (k :: bs)) >>= skipOpen) s = run (skipItem k bs) s := by
  simp only [skipItem, run_bind, run_pure, skipOpen]

theorem run_skipRest_close (hb : Blanks b) (r : List Char) :
    run (skipRest (k :: bs)) (b ++ k.close :: r) = run (skipRest bs) r := by
  have hne : k.close ≠ ',' := by cases k <;> decide
  unfold skipRest
  rw [skipOn, run_bind_assoc, run_front _ hb (not_blank_close k)]
  dsimp only
  rw [if_neg hne, if_pos rfl, run_bind_assoc, run_advance_bind]

theorem run_skipRest_comma (hb : Blanks b) (s : List Char) :
    run (skipRest (k :: bs)) (b ++ ',' :: s) = run (skipItem k bs) s := by
  unfold skipRest
  rw [skipOn, run_bind_assoc, run_front _ hb (by simp [Blank])]
  dsimp only
  rw [if_pos rfl, run_bind_assoc, run_advance_bind, run_bind_assoc, run_skipKey_open]

theorem run_skipInto_close (hb : Blanks b) (r : List Char) :
    run (skipInto k bs >>= skipOpen) (b ++ k.close :: r) = run (skipRest bs) r := by
  rw [skipInto, run_bind_assoc, run_front _ hb (not_blank_close k)]
  dsimp only
  rw [if_pos rfl, run_bind_assoc, run_advance_bind]
  rfl

theorem run_skipInto_item {c : Char} (hb : Blanks b) (hc : ¬Blank c) (hclose : c ≠ k.close)
    (s : List Char) :
    run (skipInto k bs >>= skipOpen) (b ++ c :: s) = run (skipItem k bs) (c :: s) := by
  rw [skipInto, run_bind_assoc, run_front _ hb hc]
  dsimp only
  rw [if_neg hclose, run_bind_assoc, run_skipKey_open]

/-- Skipping a value, inside any brackets, leaves what follows it. -/
def Skips (u : List Char) : Prop := ∀ (bs : List Bracket) {b r : List Char}, Blanks b → Apart r →
  run (skipValues bs) (b ++ (u ++ r)) = run (skipRest bs) r

theorem run_skipItem (bs : List Bracket) {v u : List Char} (hb : Blanks b) (hu : k.Item v u)
    (hv : Skips v) (hr : Apart r) :
    run (skipItem k bs) (b ++ (u ++ r)) = run (skipRest (k :: bs)) r := by
  obtain ⟨b', hb', hkey⟩ := run_skipKey hb hu
  exact (run_bind_of_ok hkey).trans (hv _ hb' hr)

theorem run_skipRest_further (bs : List Bracket) {vs : List (List Char)} {t : List Char}
    (h : Further k.Item vs t) (hvs : ∀ v ∈ vs, Skips v) (r : List Char) :
    run (skipRest (k :: bs)) (t ++ k.close :: r) = run (skipRest bs) r := by
  induction h with
  | nil hb => exact run_skipRest_close hb r
  | cons hb hb' hu ht ih =>
    obtain ⟨hv, hvs⟩ := List.forall_mem_cons.mp hvs
    simp only [List.append_assoc, List.cons_append]
    rw [run_skipRest_comma hb, run_skipItem bs hb' hu hv (ht.apart (apart_close k r)), ih hvs]

theorem skips_nest {vs : List (List Char)} {s : List Char}
    (h : Enclosed k.opening k.close k.Item vs s) (hvs : ∀ v ∈ vs, Value v ∧ Skips v) : Skips s := by
  have hfrom (bs : List Bracket) {b : List Char} (hb : Blanks b) (t : List Char) :
      run (skipValues bs) (b ++ k.opening :: t) = run (skipInto k bs >>= skipOpen) t := by
    rw [run_skipValues_front bs hb (not_blank_opening k)]
    cases k <;> rfl
  intro bs b r hb hr
  cases h with
  | nil hb' =>
    simp only [List.append_assoc, List.cons_append, List.nil_append]
    rw [hfrom bs hb, run_skipInto_close hb']
  | cons hb' hu ht =>
    obtain ⟨⟨hv, hskip⟩, hvs⟩ := List.forall_mem_cons.mp hvs
    have hmore := run_skipRest_further bs ht (fun v hv => (hvs v hv).2) r
    obtain ⟨c, w, rfl, hc, hclose⟩ := hu.front hv
    have hitem := run_skipItem bs .nil hu hskip (ht.apart (apart_close k r))
    simp only [List.append_assoc, List.cons_append, List.nil_append] at hitem ⊢
    rw [hfrom bs hb, run_skipInto_item hb' hc hclose, hitem, hmore]

theorem skips_of_run {c : Char} {t : List Char} {p : Reader Unit} (hc : ¬Blank c)
    (hp : ∀ bs, skipFrom bs c = (do p; skipOn bs))
    (hrun : ∀ {r}, Apart r → run p (t ++ r) = .ok ((), r)) : Skips (c :: t) := by
  intro bs b r hb hr
  rw [List.cons_append, run_skipValues_front bs hb hc, hp, run_bind_assoc,
    run_bind_of_ok (hrun hr)]
  rfl

theorem skipFrom_digit {c : Char} (hc : c.isDigit) (bs : List Bracket) :
    skipFrom bs c = (do skipNumber c; skipOn bs) := by
  unfold skipFrom
  split <;> first | contradiction | exact if_pos hc

theorem Value.skips {u : List Char} (h : Value u) : Skips u := by
  -- The elements of a value are skipped inside one more bracket, so `Skips` is about any brackets.
  induction h with
  | null => exact skips_of_run (by simp [Blank]) (fun _ => rfl) fun _ => run_word.mpr rfl
  | true => exact skips_of_run (by simp [Blank]) (fun _ => rfl) fun _ => run_word.mpr rfl
  | false => exact skips_of_run (by simp [Blank]) (fun _ => rfl) fun _ => run_word.mpr rfl
  | number h =>
    obtain ⟨c, t, rfl, ⟨hc, hu⟩ | ⟨rfl, ht⟩⟩ := h.front
    · exact skips_of_run (not_blank_of_isDigit hc) (skipFrom_digit hc) (run_skipUnsigned hu)
    · exact skips_of_run (by simp [Blank]) (fun _ => rfl) (run_skipNegative ht)
  | string h =>
    obtain ⟨v, hv, rfl⟩ := h
    refine skips_of_run (p := skipBody) not_blank_quote (fun _ => rfl) fun {r} _ => ?_
    simpa using run_skipBody hv r
  | array h hvs ih => exact skips_nest (k := .square) h fun v hv => ⟨hvs v hv, ih v hv⟩
  | object h hvs ih => exact skips_nest (k := .curly) h fun v hv => ⟨hvs v hv, ih v hv⟩

end Complete

section Sound

/-- From `s` on, the brackets `bs` are closed one after the other, and `r` is left. -/
def Closes : List Bracket → List Char → List Char → Prop
  | [], s, r => s = r
  | k :: bs, s, r => ∃ t q, k.Ending t ∧ s = t ++ q ∧ Closes bs q r

/-- From `s` on, a value stands inside the brackets `bs`, and `r` is left when they are closed. -/
def Inside (bs : List Bracket) (s r : List Char) : Prop :=
  ∃ b v q, Blanks b ∧ Value v ∧ s = b ++ (v ++ q) ∧ Closes bs q r

/-- What is still to come from `s` on before `r` is left. -/
def StillOpen : Option (List Bracket) → List Char → List Char → Prop
  | none, s, r => s = r
  | some bs, s, r => Inside bs s r

variable {k : Bracket} {bs : List Bracket} {o : Option (List Bracket)} {s q r : List Char}
  {x : Unit}

theorem of_run_colon (h : run colon s = .ok (x, r)) : ∃ b, Blanks b ∧ s = b ++ ':' :: r := by
  obtain ⟨-, h⟩ | ⟨b, c, t, hb, -, hs, h⟩ := front_of_run h
  · cases h
  · dsimp only at h
    split at h
    · rename_i hc
      cases h
      exact ⟨b, hb, by rw [hs, hc]; rfl⟩
    · cases h

theorem of_run_skipKey (h : run k.skipKey s = .ok (x, q)) {b v : List Char} (hb : Blanks b)
    (hq : q = b ++ (v ++ r)) : ∃ b' u, Blanks b' ∧ k.Item v u ∧ s = b' ++ (u ++ r) := by
  cases k with
  | square =>
    obtain ⟨-, rfl⟩ := run_pure_eq_ok.mp h
    exact ⟨b, v, hb, rfl, hq⟩
  | curly =>
    obtain ⟨-, h'⟩ | ⟨b', c, t, hb', -, hs, h'⟩ := front_of_run h
    · cases h'
    · dsimp only at h'
      split at h'
      · rename_i hc
        rw [run_advance_bind] at h'
        change run (skipBody >>= fun _ => colon) t = _ at h'
        obtain ⟨_, t', hbody, hcolon⟩ := run_bind_eq_ok.mp h'
        obtain ⟨w, hw, rfl⟩ := of_run_skipBody hbody
        obtain ⟨b₁, hb₁, rfl⟩ := of_run_colon hcolon
        exact ⟨b', _, hb', .mk ⟨w, hw, rfl⟩ hb₁ hb, by simp [hs, hc, hq]⟩
      · cases h'

/-- With the value that comes next, and with what follows that, a list of values is complete. -/
theorem Inside.ending (h : Inside (k :: bs) q r) (hkey : run k.skipKey s = .ok (x, q)) :
    ∃ b vs v u t q', Blanks b ∧ k.Item v u ∧ Further k.Item vs t ∧ (∀ v' ∈ v :: vs, Value v') ∧
      s = b ++ (u ++ (t ++ k.close :: q')) ∧ Closes bs q' r := by
  obtain ⟨b, v, q₁, hb, hv, hq, -, q₂, ⟨vs, t, ht, hvs, rfl⟩, rfl, hclose⟩ := h
  obtain ⟨b', u, hb', hu, hs⟩ := of_run_skipKey hkey hb hq
  exact ⟨b', vs, v, u, t, q₂, hb', hu, ht, List.forall_mem_cons.mpr ⟨hv, hvs⟩, by simp [hs], hclose⟩

theorem of_run_skipOn (hrun : run (skipOn bs) s = .ok (o, q)) (hq : StillOpen o q r) :
    Closes bs s r := by
  induction bs generalizing s with
  | nil =>
    obtain ⟨rfl, rfl⟩ := run_pure_eq_ok.mp hrun
    exact hq
  | cons k bs ih =>
    obtain ⟨-, h⟩ | ⟨b, c, t, hb, -, hs, h⟩ := front_of_run hrun
    · cases h
    dsimp only at h
    split at h
    · rename_i hc
      rw [run_advance_bind] at h
      obtain ⟨_, q', hkey, h⟩ := run_bind_eq_ok.mp h
      obtain ⟨rfl, rfl⟩ := run_pure_eq_ok.mp h
      obtain ⟨b', vs, v, u, t', q₂, hb', hu, ht, hvs, rfl, hclose⟩ := hq.ending hkey
      exact ⟨_, q₂, ⟨v :: vs, _, .cons hb hb' hu ht, hvs, rfl⟩, by simp [hs, hc], hclose⟩
    · split at h
      · rename_i hc
        rw [run_advance_bind] at h
        exact ⟨_, t, ⟨[], b, .nil hb, List.forall_mem_nil _, rfl⟩, by simp [hs, hc], ih h⟩
      · cases h

theorem of_run_skipInto (hrun : run (skipInto k bs) s = .ok (o, q)) (hq : StillOpen o q r) :
    ∃ v q', Value (k.opening :: v) ∧ s = v ++ q' ∧ Closes bs q' r := by
  obtain ⟨-, h⟩ | ⟨b, c, t, hb, -, hs, h⟩ := front_of_run hrun
  · cases h
  dsimp only at h
  split at h
  · rename_i hc
    rw [run_advance_bind] at h
    exact ⟨_, t, .nest (.nil hb) (List.forall_mem_nil _), by simp [hs, hc], of_run_skipOn h hq⟩
  · obtain ⟨_, q', hkey, h⟩ := run_bind_eq_ok.mp h
    obtain ⟨rfl, rfl⟩ := run_pure_eq_ok.mp h
    obtain ⟨b', vs, v, u, t', q₂, hb', hu, ht, hvs, ht', hclose⟩ := hq.ending hkey
    exact ⟨_, q₂, .nest (.cons (hb.append hb') hu ht) hvs, by simp [hs, ht'], hclose⟩

theorem of_run_once {p : Reader Unit} {c : Char} {t : List Char}
    (hp : ∀ {q}, run p t = .ok ((), q) → ∃ v, Value (c :: v) ∧ t = v ++ q)
    (h : run (do p; skipOn bs) t = .ok (o, q)) (hq : StillOpen o q r) :
    ∃ v q', Value (c :: v) ∧ t = v ++ q' ∧ Closes bs q' r := by
  obtain ⟨_, q', hv, h⟩ := run_bind_eq_ok.mp h
  obtain ⟨v, hv, ht⟩ := hp hv
  exact ⟨v, q', hv, ht, of_run_skipOn h hq⟩

theorem of_run_skipFrom {c : Char} {t : List Char} (h : run (skipFrom bs c) t = .ok (o, q))
    (hq : StillOpen o q r) : ∃ v q', Value (c :: v) ∧ t = v ++ q' ∧ Closes bs q' r := by
  by_cases hc : c.isDigit
  · rw [skipFrom_digit hc] at h
    refine of_run_once (fun hp => ?_) h hq
    obtain ⟨u, hu, rfl⟩ := of_run_skipUnsigned hc hp
    exact ⟨u, .number (.inl hu), rfl⟩
  unfold skipFrom at h
  split at h
  · exact of_run_skipInto (k := .square) h hq
  · exact of_run_skipInto (k := .curly) h hq
  · refine of_run_once (p := skipBody) (fun hp => ?_) h hq
    obtain ⟨v, hv, rfl⟩ := of_run_skipBody hp
    exact ⟨v ++ ['"'], .string ⟨v, hv, rfl⟩, by simp⟩
  · exact of_run_once (fun hp => ⟨_, .null, run_word.mp hp⟩) h hq
  · exact of_run_once (fun hp => ⟨_, .true, run_word.mp hp⟩) h hq
  · exact of_run_once (fun hp => ⟨_, .false, run_word.mp hp⟩) h hq
  · refine of_run_once (fun hp => ?_) h hq
    obtain ⟨u, hu, rfl⟩ := of_run_skipNegative hp
    exact ⟨u, .number (.inr ⟨u, hu, rfl⟩), rfl⟩
  · simp [run, hc] at h

/-- What was passed over is a value and, for each bracket around it, the rest of a list. -/
theorem of_run_skipValues (h : run (skipValues bs) s = .ok (x, r)) : Inside bs s r := by
  -- A bracket may open or close in a round, so the induction is on what is left of the text.
  induction hn : s.length using Nat.strongRecOn generalizing bs s with
  | ind n ih =>
    rw [run_skipValues] at h
    obtain ⟨-, h⟩ | ⟨b, c, t, hb, -, hs, h⟩ := front_of_run h
    · cases h
    dsimp only at h
    rw [run_advance_bind] at h
    obtain ⟨o, q, hfrom, h⟩ := run_bind_eq_ok.mp h
    have hq : StillOpen o q r := by
      cases o with
      | none => exact (run_pure_eq_ok.mp h).2
      | some bs =>
        have hle : q.length ≤ t.length := length_le_of_run hfrom
        have hlt : q.length < n := by
          simp only [← hn, hs, List.length_append, List.length_cons]
          omega
        exact ih q.length hlt h rfl
    obtain ⟨v, q', hv, rfl, hclose⟩ := of_run_skipFrom hfrom hq
    exact ⟨b, c :: v, q', hb, hv, hs, hclose⟩

theorem reads_value : Reads skipValue fun _ u => Value u where
  sound h := by
    obtain ⟨b, v, q, hb, hv, rfl, rfl⟩ := of_run_skipValues h
    exact ⟨b, v, hb, hv, rfl⟩
  complete hb hu hr := hu.skips [] hb hr
  front := Value.front

end Sound

end Coalesce.Json
