import Mathlib.Data.List.Chain
import Coalesce.Proofs.Compress.Front

namespace Coalesce

/-- No two neighbours touch. -/
def Settled (ts : List Token) : Prop := ts.IsChain fun x y => ¬x.Touches y

variable {t : Token} {ts : List Token}

theorem Settled.prepend (h : Settled ts) (t : Token) : Settled (t.prepend ts) := by
  cases ts with
  | nil => exact .singleton t
  | cons u us =>
    by_cases ht : t.Touches u
    · -- What is joined to `u` ends where `u` did, so the next token is as far from it as before.
      rw [Token.prepend_of_touches ht]
      cases us with
      | nil => exact .singleton _
      | cons v us =>
        obtain ⟨hn, hs⟩ := List.isChain_cons_cons.1 h
        exact .cons_cons (mt (Token.join_touches ht.2.1).1 hn) hs
    · rw [Token.prepend_of_not_touches ht]
      exact .cons_cons ht h

theorem settled_compress (ts : List Token) : Settled (compress ts) := by
  induction ts with
  | nil => exact .nil
  | cons t ts ih =>
    rw [compress_cons]
    exact ih.prepend t

theorem compress_of_settled (h : Settled ts) : compress ts = ts := by
  induction ts with
  | nil => rfl
  | cons t ts ih =>
    rw [compress_cons, ih h.tail]
    cases ts with
    | nil => rfl
    | cons u us => exact Token.prepend_of_not_touches (List.isChain_cons_cons.1 h).1

theorem compress_compress (ts : List Token) : compress (compress ts) = compress ts :=
  compress_of_settled (settled_compress ts)

/-- How many tokens touch the token behind them. -/
def seams (ts : List Token) : Nat := (ts.zip ts.tail).countP fun p => p.1.Touches p.2

variable {u : Token} {us : List Token}

theorem seams_cons_cons (t u : Token) (us : List Token) :
    seams (t :: u :: us) = seams (u :: us) + if t.Touches u then 1 else 0 := by
  simp [seams, List.countP_cons]

theorem length_prepend_join (h : t.Touches u) (ts : List Token) :
    ((t.join u).prepend ts).length = (u.prepend ts).length := by
  cases ts with
  | nil => rfl
  | cons v vs =>
    by_cases hv : u.Touches v
    · rw [Token.prepend_of_touches hv, Token.prepend_of_touches ((Token.join_touches h.2.1).2 hv)]
      rfl
    · rw [Token.prepend_of_not_touches hv,
        Token.prepend_of_not_touches (mt (Token.join_touches h.2.1).1 hv)]
      rfl

theorem length_compress_of_touches (h : t.Touches u) :
    (compress (t :: u :: us)).length = (compress (u :: us)).length := by
  rw [compress_cons, compress_cons, Token.prepend_prepend h, length_prepend_join h]

theorem compress_cons_of_not_touches (h : ¬t.Touches u) :
    compress (t :: u :: us) = t :: compress (u :: us) := by
  rw [compress_cons, compress_cons, Token.prepend_prepend_of_not_touches h]

/-- Each seam costs one token, and nothing else does. -/
theorem length_compress_add_seams (ts : List Token) :
    (compress ts).length + seams ts = ts.length := by
  induction ts with
  | nil => rfl
  | cons t ts ih =>
    cases ts with
    | nil =>
      rw [compress_cons]
      rfl
    | cons u us =>
      rw [seams_cons_cons, List.length_cons, ← ih]
      by_cases h : t.Touches u
      · rw [if_pos h, length_compress_of_touches h]
        omega
      · rw [if_neg h, compress_cons_of_not_touches h, List.length_cons]
        omega

/-- Compression goes as far as it can: no two neighbours touch afterwards, the lists without such
neighbours are the ones that it leaves alone, and it loses one token for each pair of them. -/
theorem normalization (ts : List Token) :
    Settled (compress ts) ∧ (compress ts = ts ↔ Settled ts) ∧
      compress (compress ts) = compress ts ∧ (compress ts).length + seams ts = ts.length := by
  refine ⟨settled_compress ts, ?_, compress_compress ts, length_compress_add_seams ts⟩
  constructor
  · intro h
    rw [← h]
    exact settled_compress ts
  · exact compress_of_settled

end Coalesce
