import Coalesce.Proofs.Json.Strings

namespace Coalesce.Json

open Reader

/-- Nothing that could continue a row of digits. -/
def NoDigit (r : List Char) : Prop := r.head?.any Char.isDigit = false

theorem noDigit_cons {c : Char} {r : List Char} : NoDigit (c :: r) ↔ c.isDigit = false := by
  simp [NoDigit]

theorem Apart.noDigit {r : List Char} (h : Apart r) : NoDigit r := by
  cases r with
  | nil => rfl
  | cons c r => exact noDigit_cons.mpr (apart_cons.mp h).1

section Digits

@[simp] theorem run_peekDigit (s : List Char) :
    run peekDigit s = .ok (s.head?.any Char.isDigit, s) := rfl

@[simp] theorem run_peekDigit_bind {α : Type} (f : Bool → Reader α) (s : List Char) :
    run (peekDigit >>= f) s = run (f (s.head?.any Char.isDigit)) s := run_bind_of_ok rfl

theorem noDigit_dropWhile (s : List Char) : NoDigit (s.dropWhile Char.isDigit) := by
  have h := List.head?_dropWhile_not Char.isDigit s
  unfold NoDigit
  cases hs : (s.dropWhile Char.isDigit).head? with
  | none => rfl
  | some c => simpa [hs] using h

theorem noDigit_of_length_takeWhile {s : List Char} (h : (s.takeWhile Char.isDigit).length = 0) :
    s.dropWhile Char.isDigit = s ∧ NoDigit s := by
  have hs : s.dropWhile Char.isDigit = s := by
    have := s.takeWhile_append_dropWhile (p := Char.isDigit)
    rwa [List.eq_nil_of_length_eq_zero h, List.nil_append] at this
  exact ⟨hs, hs ▸ noDigit_dropWhile s⟩

theorem span_digits {d r : List Char} (hd : ∀ c ∈ d, c.isDigit) (hr : NoDigit r) :
    (d ++ r).takeWhile Char.isDigit = d ∧ (d ++ r).dropWhile Char.isDigit = r := by
  have hr' : r.takeWhile Char.isDigit = [] ∧ r.dropWhile Char.isDigit = r := by
    cases r with
    | nil => exact ⟨rfl, rfl⟩
    | cons c r => simp [noDigit_cons.mp hr]
  rw [List.takeWhile_append_of_pos hd, List.dropWhile_append_of_pos hd, hr'.1, hr'.2]
  exact ⟨List.append_nil d, rfl⟩

theorem Digits.cons {c : Char} {d : List Char} (hc : c.isDigit) (hd : ∀ x ∈ d, x.isDigit) :
    Digits (c :: d) :=
  ⟨List.cons_ne_nil c d, List.forall_mem_cons.mpr ⟨hc, hd⟩⟩

/-- A row of digits that starts where the text does. -/
theorem digits_takeWhile {c : Char} (hc : c.isDigit) (s : List Char) :
    Digits (c :: s.takeWhile Char.isDigit) :=
  .cons hc fun _ hx => List.all_eq_true.mp List.all_takeWhile _ hx

theorem run_skipDigits {d r : List Char} (hd : Digits d) (hr : NoDigit r) :
    run skipDigits (d ++ r) = .ok ((), r) := by
  obtain ⟨c, d, rfl⟩ := List.exists_cons_of_ne_nil hd.1
  have hc : c.isDigit := hd.2 c List.mem_cons_self
  have hspan := (span_digits hd.2 hr).2
  rw [List.cons_append] at hspan ⊢
  simp [skipDigits, hc, run_bind, hspan]

theorem of_run_skipDigits {s r : List Char} {x : Unit} (h : run skipDigits s = .ok (x, r)) :
    ∃ d, Digits d ∧ s = d ++ r := by
  cases s with
  | nil => cases h
  | cons c t =>
    by_cases hc : c.isDigit
    · have hr : (c :: t).dropWhile Char.isDigit = r := by
        simpa [skipDigits, hc, run_bind] using h
      refine ⟨(c :: t).takeWhile Char.isDigit, ?_, ?_⟩
      · simpa [hc] using digits_takeWhile hc t
      · rw [← hr, List.takeWhile_append_dropWhile]
    · simp [skipDigits, hc] at h

end Digits

section Words

theorem ofDigitChars_cons (c : Char) (d : List Char) (n : Nat) :
    Nat.ofDigitChars 10 (c :: d) n = Nat.ofDigitChars 10 d (n * 10 + digitValue c) := by
  rw [Nat.ofDigitChars_cons, Nat.mul_comm]
  rfl

theorem le_ofDigitChars (d : List Char) (n : Nat) : n ≤ Nat.ofDigitChars 10 d n := by
  rw [Nat.ofDigitChars_eq_ofDigitChars_zero]
  exact Nat.le_add_right_of_le (Nat.le_mul_of_pos_left n (Nat.pow_pos (by decide)))

theorem digitsWithin_append {limit : Nat} {d r : List Char} {n : Nat} (hd : ∀ c ∈ d, c.isDigit)
    (hr : NoDigit r) (hle : Nat.ofDigitChars 10 d n ≤ limit) :
    digitsWithin limit n (d ++ r) = (Nat.ofDigitChars 10 d n, d.length, r) := by
  induction d generalizing n with
  | nil =>
    cases r with
    | nil => rfl
    | cons c r => simp [digitsWithin, noDigit_cons.mp hr]
  | cons c d ih =>
    rw [ofDigitChars_cons] at hle ⊢
    have hc : c.isDigit ∧ n * 10 + digitValue c ≤ limit :=
      ⟨hd c List.mem_cons_self, Nat.le_trans (le_ofDigitChars d _) hle⟩
    have hread := ih (fun x hx => hd x (List.mem_cons_of_mem _ hx)) hle
    rw [List.cons_append, digitsWithin, if_pos hc, hread]
    rfl

/-- The digits that were read, whatever follows them. -/
theorem digitsWithin_eq (limit n : Nat) (s : List Char) : ∃ d q,
    digitsWithin limit n s = (Nat.ofDigitChars 10 d n, d.length, q) ∧ s = d ++ q ∧
    (∀ c ∈ d, c.isDigit) ∧ (n ≤ limit → Nat.ofDigitChars 10 d n ≤ limit) := by
  induction s generalizing n with
  | nil => exact ⟨[], [], rfl, rfl, List.forall_mem_nil _, id⟩
  | cons c s ih =>
    unfold digitsWithin
    split
    · rename_i hc
      obtain ⟨d, q, hread, rfl, hd, hle⟩ := ih (n * 10 + digitValue c)
      refine ⟨c :: d, q, ?_, rfl, List.forall_mem_cons.mpr ⟨hc.1, hd⟩, fun _ => ?_⟩
      · rw [hread, ofDigitChars_cons]
        rfl
      · rw [ofDigitChars_cons]
        exact hle hc.2
    · exact ⟨[], c :: s, rfl, rfl, List.forall_mem_nil _, id⟩

theorem run_digitsFrom {limit n m k : Nat} {s r : List Char}
    (h : digitsWithin limit n s = (m, k, r)) : run (digitsFrom limit n) s = .ok ((m, k), r) := by
  have hrun : run (digitsFrom limit n) s = .ok (((digitsWithin limit n s).1,
      (digitsWithin limit n s).2.1), (digitsWithin limit n s).2.2) := rfl
  rw [hrun, h]

theorem run_wholePart {u r : List Char} (hu : Whole u) (hr : NoDigit r)
    (hle : Nat.ofDigitChars 10 u 0 ≤ wordMax) :
    run wholePart (u ++ r) = .ok ((Nat.ofDigitChars 10 u 0, 0), r) := by
  obtain ⟨⟨hne, hd⟩, hzero⟩ := hu
  obtain ⟨c, d, rfl⟩ := List.exists_cons_of_ne_nil hne
  unfold wholePart
  rw [run_peek_bind, List.cons_append, List.head?_cons]
  split
  · contradiction
  · rename_i h
    cases h
    cases hzero rfl
    simp [show r.head?.any Char.isDigit = false from hr, Nat.ofDigitChars]
  · rename_i c' _ h
    cases h
    have hread := run_digitsFrom (digitsWithin_append hd hr hle)
    have hnone : r.takeWhile Char.isDigit = [] ∧ r.dropWhile Char.isDigit = r :=
      span_digits (List.forall_mem_nil _) hr
    rw [if_pos (hd c List.mem_cons_self), ← List.cons_append, run_bind_of_ok hread]
    simp [run_bind, hnone]

theorem of_run_wholePart {s r : List Char} {n : Nat} (h : run wholePart s = .ok ((n, 0), r)) :
    ∃ u, Whole u ∧ s = u ++ r ∧ n = Nat.ofDigitChars 10 u 0 ∧ n ≤ wordMax := by
  unfold wholePart at h
  rw [run_peek_bind] at h
  cases s with
  | nil => cases h
  | cons c t =>
    rw [List.head?_cons] at h
    split at h
    · contradiction
    · rename_i hc
      cases hc
      rw [run_advance_bind, run_peekDigit_bind] at h
      split at h
      · cases h
      · cases h
        exact ⟨['0'], ⟨.cons rfl (List.forall_mem_nil _), fun _ => rfl⟩, rfl, rfl, Nat.zero_le _⟩
    · rename_i c' hzero hc
      cases hc
      split at h
      · rename_i hdigit
        obtain ⟨d, q, hread, hs, hd, hle⟩ := digitsWithin_eq wordMax 0 (c :: t)
        rw [run_bind_of_ok (run_digitsFrom hread), run_bind_of_ok (run_takeWhile _ _)] at h
        obtain ⟨hvalue, rfl⟩ := run_pure_eq_ok.mp h
        obtain ⟨rfl, hlength⟩ := Prod.mk.inj hvalue
        -- Nothing was left over, so it is the end of the digits that stopped the reading. The first
        -- digit always fits, or it would be left over itself.
        obtain ⟨hrest, hq⟩ := noDigit_of_length_takeWhile hlength
        rw [hrest]
        cases d with
        | nil =>
          rw [List.nil_append] at hs
          rw [← hs, noDigit_cons, hdigit] at hq
          contradiction
        | cons c' d =>
          obtain ⟨rfl, -⟩ := List.cons.inj hs
          have hwhole : Whole (c :: d) :=
            ⟨⟨List.cons_ne_nil c d, hd⟩, fun h => absurd (Option.some.inj h) hzero⟩
          exact ⟨c :: d, hwhole, hs, rfl, hle (Nat.zero_le _)⟩
      · cases h

/-- A rounded number is no word, nor is one below zero. -/
theorem toWord_eq_ok {x : Number} {w : UInt64} (h : x.toWord = .ok w) :
    ∃ n : Int, x = .whole n ∧ 0 ≤ n ∧ w = .ofNat n.toNat := by
  cases x with
  | rounded negative m => cases h
  | whole n =>
    by_cases hn : 0 ≤ n
    · rw [Number.toWord, if_pos hn] at h
      exact ⟨n, rfl, hn, (Except.ok.inj h).symm⟩
    · rw [Number.toWord, if_neg hn] at h
      cases h

theorem of_run_rounded {negative : Bool} {n : Nat} {e : Int} {s r : List Char} {x : Number}
    (h : run (rounded negative n e) s = .ok (x, r)) : ∃ m, x = .rounded negative m := by
  unfold rounded at h
  split at h
  · rename_i m _
    exact ⟨m, (run_pure_eq_ok.mp h).1.symm⟩
  · cases h

theorem of_run_exponentPart {negative : Bool} {n : Nat} {e : Int} {s r : List Char} {x : Number}
    (h : run (exponentPart negative n e) s = .ok (x, r)) : ∃ m, x = .rounded negative m := by
  obtain ⟨down, q, -, h⟩ := run_bind_eq_ok.mp h
  rw [run_peek_bind] at h
  split at h
  · cases h
  · split at h
    · obtain ⟨⟨k, _⟩, q', -, h⟩ := run_bind_eq_ok.mp h
      rw [run_peekDigit_bind] at h
      split at h
      · split at h
        · cases h
        · obtain ⟨_, _, -, h⟩ := run_bind_eq_ok.mp h
          exact ⟨_, (run_pure_eq_ok.mp h).1.symm⟩
      · exact of_run_rounded h
    · cases h

theorem of_run_withExponent {negative : Bool} {n : Nat} {e : Int} {s r : List Char} {x : Number}
    (h : run (withExponent negative n e) s = .ok (x, r)) : ∃ m, x = .rounded negative m := by
  unfold withExponent at h
  rw [run_peek_bind] at h
  split at h
  · obtain ⟨_, _, -, h⟩ := run_bind_eq_ok.mp h
    exact of_run_exponentPart h
  · obtain ⟨_, _, -, h⟩ := run_bind_eq_ok.mp h
    exact of_run_exponentPart h
  · exact of_run_rounded h

/-- A number that comes out whole and not below zero was written without sign, fraction and
exponent, in digits that fit a word. -/
theorem of_run_number {negative : Bool} {s r : List Char} {z : Int} (hz : 0 ≤ z)
    (h : run (number negative) s = .ok (.whole z, r)) : negative = false ∧ ∃ u, Whole u ∧
      s = u ++ r ∧ Nat.ofDigitChars 10 u 0 ≤ wordMax ∧ z = Nat.ofDigitChars 10 u 0 := by
  obtain ⟨⟨n, excess⟩, q, hwhole, h⟩ := run_bind_eq_ok.mp h
  -- Whatever has a fraction or an exponent is rounded, also where its value is whole.
  have hnot {n : Nat} {e : Int} {s : List Char}
      (h : run (withExponent negative n e) s = .ok (.whole z, r)) : False := by
    obtain ⟨m, hm⟩ := of_run_withExponent h
    cases hm
  rw [run_peek_bind] at h
  split at h
  · obtain ⟨_, q₁, -, h⟩ := run_bind_eq_ok.mp h
    obtain ⟨_, q₂, -, h⟩ := run_bind_eq_ok.mp h
    exact (hnot h).elim
  · exact (hnot h).elim
  · exact (hnot h).elim
  · split at h
    · rename_i hcase
      obtain ⟨hn, rfl⟩ := run_pure_eq_ok.mp h
      obtain ⟨u, hu, hs, rfl, hle⟩ := of_run_wholePart (hcase.1 ▸ hwhole)
      exact ⟨by simpa using hcase.2, u, hu, hs, hle, (Number.whole.inj hn).symm⟩
    · split at h
      · rename_i hcase
        have hn := Number.whole.inj (run_pure_eq_ok.mp h).1
        omega
      · obtain ⟨m, hm⟩ := of_run_rounded h
        cases hm

theorem run_number {u r : List Char} (hu : Whole u) (hr : Apart r)
    (hle : Nat.ofDigitChars 10 u 0 ≤ wordMax) :
    run (number false) (u ++ r) = .ok (.whole (Nat.ofDigitChars 10 u 0), r) := by
  unfold number
  rw [run_bind_of_ok (run_wholePart hu hr.noDigit hle)]
  dsimp only
  rw [run_peek_bind]
  cases r with
  | nil => rfl
  | cons c r =>
    obtain ⟨-, hpoint, he, hE⟩ := apart_cons.mp hr
    rw [List.head?_cons]
    split
    · rename_i h
      exact absurd (Option.some.inj h) hpoint
    · rename_i h
      exact absurd (Option.some.inj h) he
    · rename_i h
      exact absurd (Option.some.inj h) hE
    · rw [if_pos ⟨rfl, rfl⟩, run_pure]

theorem toNat_le_wordMax (w : UInt64) : w.toNat ≤ wordMax := Nat.le_pred_of_lt w.toNat_lt_size

theorem run_wordAfter {w : UInt64} {u r : List Char} (h : WordText w u) (hr : Apart r) :
    run (wordAfter false) (u ++ r) = .ok (w, r) := by
  have hle : Nat.ofDigitChars 10 u 0 ≤ wordMax := h.2 ▸ toNat_le_wordMax w
  unfold wordAfter
  rw [run_bind_of_ok (run_number h.1 hr hle), h.2]
  simp [Number.toWord]

theorem of_run_wordAfter {negative : Bool} {s r : List Char} {w : UInt64}
    (h : run (wordAfter negative) s = .ok (w, r)) :
    negative = false ∧ ∃ u, WordText w u ∧ s = u ++ r := by
  obtain ⟨x, q, hx, h⟩ := run_bind_eq_ok.mp h
  split at h
  · rename_i hw
    obtain ⟨rfl, rfl⟩ := run_pure_eq_ok.mp h
    obtain ⟨z, rfl, hz, rfl⟩ := toWord_eq_ok hw
    obtain ⟨hsign, u, hu, hs, hle, rfl⟩ := of_run_number hz hx
    refine ⟨hsign, u, ⟨hu, ?_⟩, hs⟩
    rw [Int.toNat_natCast, UInt64.toNat_ofNat_of_lt' (Nat.lt_of_le_of_lt hle (by decide))]
  · cases h

theorem not_blank_of_isDigit {c : Char} (h : c.isDigit) : ¬Blank c := by
  rintro (rfl | rfl | rfl | rfl) <;> contradiction

theorem reads_word : Reads word64 WordText := by
  have hfront {w : UInt64} {u : List Char} (h : WordText w u) : ∃ c t, u = c :: t ∧ c.isDigit := by
    obtain ⟨c, t, rfl⟩ := List.exists_cons_of_ne_nil h.1.1.1
    exact ⟨c, t, rfl, h.1.1.2 c List.mem_cons_self⟩
  refine .of_front (fun a r h => by cases h) ?_ ?_ ?_
  · intro c t r w h
    dsimp only at h
    split at h
    · rw [run_advance_bind] at h
      exact absurd (of_run_wordAfter h).1 (by decide)
    · split at h
      · exact (of_run_wordAfter h).2
      · exact absurd h (run_wrongType_ne_ok _ _ _ _)
  · intro c t r w hw hr
    obtain ⟨c', t', heq, hc⟩ := hfront hw
    obtain ⟨rfl, rfl⟩ := List.cons.inj heq
    dsimp only
    rw [if_neg (by rintro rfl; contradiction), if_pos hc]
    exact run_wordAfter hw hr
  · intro w u hw
    obtain ⟨c, t, rfl, hc⟩ := hfront hw
    exact ⟨c, t, rfl, not_blank_of_isDigit hc, by rintro rfl; contradiction⟩

end Words

section Skipping

theorem run_exponentSign {sign d r : List Char} (hsign : sign = [] ∨ sign = ['+'] ∨ sign = ['-'])
    (hd : Digits d) : ∃ down, run exponentSign (sign ++ (d ++ r)) = .ok (down, d ++ r) := by
  obtain ⟨c, d, rfl⟩ := List.exists_cons_of_ne_nil hd.1
  have hc : c.isDigit := hd.2 c List.mem_cons_self
  rcases hsign with rfl | rfl | rfl
  · refine ⟨false, ?_⟩
    unfold exponentSign
    rw [run_peek_bind]
    split
    · rename_i h
      cases h
      contradiction
    · rename_i h
      cases h
      contradiction
    · rfl
  · exact ⟨false, rfl⟩
  · exact ⟨true, rfl⟩

theorem of_run_exponentSign {s r : List Char} {down : Bool}
    (h : run exponentSign s = .ok (down, r)) :
    ∃ sign, (sign = [] ∨ sign = ['+'] ∨ sign = ['-']) ∧ s = sign ++ r := by
  unfold exponentSign at h
  rw [run_peek_bind] at h
  cases s with
  | nil =>
    cases h
    exact ⟨[], .inl rfl, rfl⟩
  | cons c t =>
    rw [List.head?_cons] at h
    split at h
    · rename_i hc
      cases hc
      cases h
      exact ⟨['+'], .inr (.inl rfl), rfl⟩
    · rename_i hc
      cases hc
      cases h
      exact ⟨['-'], .inr (.inr rfl), rfl⟩
    · cases h
      exact ⟨[], .inl rfl, rfl⟩

theorem run_skipExponent {e r : List Char} (he : Exponent e) (hr : Apart r) :
    run skipExponent (e ++ r) = .ok ((), r) := by
  cases he with
  | absent =>
    unfold skipExponent
    rw [List.nil_append, run_peek_bind]
    cases r with
    | nil => rfl
    | cons c r =>
      obtain ⟨-, -, he, hE⟩ := apart_cons.mp hr
      rw [List.head?_cons]
      split
      · rename_i h
        exact absurd (Option.some.inj h) he
      · rename_i h
        exact absurd (Option.some.inj h) hE
      · rfl
  | @present c sign d hc hsign hd =>
    obtain ⟨down, hdown⟩ := run_exponentSign (r := r) hsign hd
    rw [List.cons_append, List.append_assoc]
    unfold skipExponent
    rw [run_peek_bind]
    have hdigits := run_skipDigits hd hr.noDigit
    rcases hc with rfl | rfl <;>
      simp only [List.head?_cons, run_advance_bind, run_bind_of_ok hdown, hdigits]

theorem of_run_skipExponent {s r : List Char} {x : Unit} (h : run skipExponent s = .ok (x, r)) :
    ∃ e, Exponent e ∧ s = e ++ r := by
  have hpresent {c : Char} {t : List Char} (hc : c = 'e' ∨ c = 'E')
      (h : run (do let _ ← exponentSign; skipDigits) t = .ok (x, r)) :
      ∃ e, Exponent e ∧ c :: t = e ++ r := by
    obtain ⟨down, q, hdown, hskip⟩ := run_bind_eq_ok.mp h
    obtain ⟨sign, hsign, rfl⟩ := of_run_exponentSign hdown
    obtain ⟨d, hd, rfl⟩ := of_run_skipDigits hskip
    exact ⟨_, .present hc hsign hd, by simp⟩
  unfold skipExponent at h
  rw [run_peek_bind] at h
  cases s with
  | nil =>
    cases h
    exact ⟨[], .absent, rfl⟩
  | cons c t =>
    rw [List.head?_cons] at h
    split at h
    · rename_i hc
      cases hc
      rw [run_advance_bind] at h
      exact hpresent (.inl rfl) h
    · rename_i hc
      cases hc
      rw [run_advance_bind] at h
      exact hpresent (.inr rfl) h
    · cases h
      exact ⟨[], .absent, rfl⟩

/-- What may follow the digits before the point. -/
def skipPoint : Reader Unit := do
  match ← peek with
  | some '.' => do
    advance
    skipDigits
    skipExponent
  | _ => skipExponent

theorem run_skipNumber (c : Char) (s : List Char) : run (skipNumber c) s =
    if c = '0' then
      if s.head?.any Char.isDigit then .error ⟨.invalidNumber, s, 1⟩ else run skipPoint s
    else run skipPoint (s.dropWhile Char.isDigit) := by
  unfold skipNumber
  by_cases hc : c = '0'
  · simp only [if_pos hc, run_peekDigit_bind]
    split
    · rfl
    · rfl
  · simp only [if_neg hc]
    exact run_bind_of_ok (run_takeWhile _ _)

theorem Exponent.noDigit {e r : List Char} (he : Exponent e) (hr : Apart r) : NoDigit (e ++ r) := by
  cases he with
  | absent => exact hr.noDigit
  | present he => rcases he with rfl | rfl <;> rfl

theorem Fraction.noDigit {f e r : List Char} (hf : Fraction f) (he : Exponent e) (hr : Apart r) :
    NoDigit (f ++ (e ++ r)) := by
  obtain rfl | ⟨d, -, rfl⟩ := hf
  · exact he.noDigit hr
  · rfl

theorem run_skipPoint {f e r : List Char} (hf : Fraction f) (he : Exponent e) (hr : Apart r) :
    run skipPoint (f ++ (e ++ r)) = .ok ((), r) := by
  have hskip := run_skipExponent he hr
  unfold skipPoint
  rw [run_peek_bind]
  obtain rfl | ⟨d, hd, rfl⟩ := hf
  · rw [List.nil_append]
    split
    · rename_i h
      cases he with
      | absent => exact absurd rfl (hr _ h).2.1
      | present he => rcases he with rfl | rfl <;> cases h
    · exact hskip
  · simp only [List.cons_append, List.head?_cons, run_advance_bind]
    rw [run_bind_of_ok (run_skipDigits hd (he.noDigit hr)), hskip]

theorem of_run_skipPoint {s r : List Char} {x : Unit} (h : run skipPoint s = .ok (x, r)) :
    ∃ f e, Fraction f ∧ Exponent e ∧ s = f ++ (e ++ r) := by
  unfold skipPoint at h
  rw [run_peek_bind] at h
  split at h
  · rename_i hs
    obtain ⟨t, rfl⟩ : ∃ t, s = '.' :: t := List.head?_eq_some_iff.mp hs
    rw [run_advance_bind] at h
    obtain ⟨_, q, hdigits, hskip⟩ := run_bind_eq_ok.mp h
    obtain ⟨d, hd, rfl⟩ := of_run_skipDigits hdigits
    obtain ⟨e, he, rfl⟩ := of_run_skipExponent hskip
    exact ⟨'.' :: d, e, .inr ⟨d, hd, rfl⟩, he, rfl⟩
  · obtain ⟨e, he, rfl⟩ := of_run_skipExponent h
    exact ⟨[], e, .inl rfl, he, rfl⟩

theorem run_skipUnsigned {c : Char} {u r : List Char} (h : Unsigned (c :: u)) (hr : Apart r) :
    run (skipNumber c) (u ++ r) = .ok ((), r) := by
  obtain ⟨i, f, e, ⟨⟨hne, hd⟩, hzero⟩, hf, he, hu⟩ := h
  obtain ⟨c', i, rfl⟩ := List.exists_cons_of_ne_nil hne
  rw [List.cons_append] at hu
  obtain ⟨rfl, rfl⟩ := List.cons.inj hu
  have hdigit := hf.noDigit he hr
  have hskip := run_skipPoint hf he hr
  rw [run_skipNumber, List.append_assoc, List.append_assoc]
  split
  · rename_i hc
    obtain rfl : i = [] := by simpa [hc] using hzero
    rw [List.nil_append, if_neg (by simpa [NoDigit] using hdigit), hskip]
  · rw [(span_digits (fun x hx => hd x (List.mem_cons_of_mem _ hx)) hdigit).2, hskip]

theorem of_run_skipUnsigned {c : Char} {s r : List Char} {x : Unit} (hc : c.isDigit)
    (h : run (skipNumber c) s = .ok (x, r)) : ∃ u, Unsigned (c :: u) ∧ s = u ++ r := by
  rw [run_skipNumber] at h
  split at h
  · rename_i hzero
    split at h
    · cases h
    · obtain ⟨f, e, hf, he, rfl⟩ := of_run_skipPoint h
      have hwhole : Whole [c] := ⟨.cons hc (List.forall_mem_nil _), fun _ => by rw [hzero]⟩
      exact ⟨f ++ e, ⟨[c], f, e, hwhole, hf, he, rfl⟩, by simp⟩
  · rename_i hzero
    obtain ⟨f, e, hf, he, hs⟩ := of_run_skipPoint h
    have hwhole : Whole (c :: s.takeWhile Char.isDigit) :=
      ⟨digits_takeWhile hc s, fun h => absurd (Option.some.inj h) hzero⟩
    refine ⟨s.takeWhile Char.isDigit ++ (f ++ e), ⟨_, f, e, hwhole, hf, he, rfl⟩, ?_⟩
    rw [List.append_assoc, List.append_assoc, ← hs, List.takeWhile_append_dropWhile]

theorem Unsigned.front {u : List Char} (h : Unsigned u) : ∃ c t, u = c :: t ∧ c.isDigit := by
  obtain ⟨i, f, e, ⟨⟨hne, hd⟩, -⟩, -, -, rfl⟩ := h
  obtain ⟨c, i, rfl⟩ := List.exists_cons_of_ne_nil hne
  exact ⟨c, i ++ (f ++ e), rfl, hd c List.mem_cons_self⟩

theorem run_skipNegative {u r : List Char} (h : Unsigned u) (hr : Apart r) :
    run skipNegative (u ++ r) = .ok ((), r) := by
  obtain ⟨c, t, rfl, hc⟩ := h.front
  simp [skipNegative, hc, run_skipUnsigned h hr]

theorem of_run_skipNegative {s r : List Char} {x : Unit} (h : run skipNegative s = .ok (x, r)) :
    ∃ u, Unsigned u ∧ s = u ++ r := by
  cases s with
  | nil => cases h
  | cons c t =>
    by_cases hc : c.isDigit
    · obtain ⟨u, hu, rfl⟩ := of_run_skipUnsigned hc (s := t) (by simpa [skipNegative, hc] using h)
      exact ⟨c :: u, hu, rfl⟩
    · simp [skipNegative, hc] at h

end Skipping

end Coalesce.Json
