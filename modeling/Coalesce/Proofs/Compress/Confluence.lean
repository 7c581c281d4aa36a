import Mathlib.Logic.Relation
import Coalesce.Proofs.Compress.Normal

namespace Coalesce

open Relation (ReflTransGen)

/-- Somewhere in a list, two neighbours that touch become one. -/
inductive JoinStep : List Token → List Token → Prop where
  | mk (ts us : List Token) {x y : Token} (h : x.Touches y) :
      JoinStep (ts ++ x :: y :: us) (ts ++ x.join y :: us)

/-- What comes before two lists that compress alike does not tell them apart. -/
theorem compress_append_congr {us vs : List Token} (h : compress us = compress vs)
    (ts : List Token) : compress (ts ++ us) = compress (ts ++ vs) := by
  induction ts with
  | nil => exact h
  | cons t ts ih => rw [List.cons_append, List.cons_append, compress_cons, compress_cons, ih]

namespace JoinStep

variable {ts us vs : List Token}

theorem compress_eq (h : JoinStep ts us) : compress us = compress ts := by
  obtain ⟨before, after, h⟩ := h
  apply compress_append_congr
  rw [compress_cons, compress_cons, compress_cons, Token.prepend_prepend h]

theorem append_left (h : JoinStep us vs) (ts : List Token) : JoinStep (ts ++ us) (ts ++ vs) := by
  obtain ⟨before, after, h⟩ := h
  rw [← List.append_assoc, ← List.append_assoc]
  exact .mk (ts ++ before) after h

theorem append_right (h : JoinStep us vs) (ts : List Token) : JoinStep (us ++ ts) (vs ++ ts) := by
  obtain ⟨before, after, h⟩ := h
  rw [List.append_assoc, List.append_assoc]
  exact .mk before (after ++ ts) h

end JoinStep

abbrev Joins : List Token → List Token → Prop := ReflTransGen JoinStep

namespace Joins

variable {ts ts' us us' : List Token}

theorem compress_eq (h : Joins ts us) : compress us = compress ts := by
  induction h with
  | refl => rfl
  | tail _ hs ih => exact hs.compress_eq.trans ih

theorem append (h : Joins ts ts') (h' : Joins us us') : Joins (ts ++ us) (ts' ++ us') := by
  have hl : Joins (ts ++ us) (ts' ++ us) := h.lift (· ++ us) fun _ _ hs => hs.append_right us
  have hr : Joins (ts' ++ us) (ts' ++ us') := h'.lift (ts' ++ ·) fun _ _ hs => hs.append_left ts'
  exact hl.trans hr

end Joins

theorem joins_prepend (t : Token) (ts : List Token) : Joins (t :: ts) (t.prepend ts) := by
  cases ts with
  | nil => exact .refl
  | cons u us =>
    by_cases ht : t.Touches u
    · rw [Token.prepend_of_touches ht]
      exact .single (.mk [] us ht)
    · rw [Token.prepend_of_not_touches ht]

theorem joins_compress (ts : List Token) : Joins ts (compress ts) := by
  induction ts with
  | nil => exact .refl
  | cons t ts ih =>
    have hr : Joins [t] [t] := .refl
    have ht : Joins (t :: ts) (t :: compress ts) := hr.append ih
    rw [compress_cons]
    exact ht.trans (joins_prepend t (compress ts))

theorem joins_flatMap_compress (chunks : List (List Token)) :
    Joins chunks.flatten (chunks.flatMap compress) := by
  induction chunks with
  | nil => exact .refl
  | cons ts chunks ih => exact (joins_compress ts).append ih

theorem settled_of_not_joinStep {ts : List Token} (h : ∀ us, ¬ JoinStep ts us) : Settled ts := by
  induction ts with
  | nil => exact .nil
  | cons t ts ih =>
    have hs : Settled ts := ih fun us hu => h (t :: us) (hu.append_left [t])
    cases ts with
    | nil => exact .singleton t
    | cons u us => exact .cons_cons (fun ht => h _ (.mk [] us ht)) hs

/-- In whatever order literals are joined, and in whatever chunks, nothing changes what a list
compresses to, and where no more can be joined, that is what is left. -/
theorem confluence (ts : List Token) :
    (∀ us, Joins ts us → compress us = compress ts) ∧
    Joins ts (compress ts) ∧
    (∀ us, Joins ts us → (∀ vs, ¬ JoinStep us vs) → us = compress ts) ∧
    (∀ chunks : List (List Token), chunks.flatten = ts →
      compress (chunks.flatMap compress) = compress ts) ∧
    ∀ us vs, us ++ vs = ts → compress (compress us ++ compress vs) = compress ts := by
  refine ⟨fun us h => h.compress_eq, joins_compress ts, ?_, ?_, ?_⟩
  · intro us h hs
    rw [← h.compress_eq, compress_of_settled (settled_of_not_joinStep hs)]
  · rintro chunks rfl
    exact (joins_flatMap_compress chunks).compress_eq
  · rintro us vs rfl
    exact ((joins_compress us).append (joins_compress vs)).compress_eq

/-- Literals of no width or that run backward, joined from the end. -/
theorem confluence_backward :
    let a : Token := ⟨.literal, "a", ⟨3, 1⟩⟩
    let b : Token := ⟨.literal, "b", ⟨1, 1⟩⟩
    let c : Token := ⟨.literal, "c", ⟨1, 4⟩⟩
    let d : Token := ⟨.interpolation, "d", ⟨4, 3⟩⟩
    Joins [a, b, c, d] [a, ⟨.literal, "bc", ⟨1, 4⟩⟩, d] ∧
      compress [a, ⟨.literal, "bc", ⟨1, 4⟩⟩, d] = compress [a, b, c, d] ∧
      compress (compress [a, b] ++ compress [c, d]) = compress [a, b, c, d] ∧
      compress [a, b, c, d] = [⟨.literal, "abc", ⟨3, 4⟩⟩, d] := by
  intro a b c d
  have hs : JoinStep [a, b, c, d] [a, b.join c, d] := .mk [a] [d] (by decide)
  have hj : Joins [a, b, c, d] [a, ⟨.literal, "bc", ⟨1, 4⟩⟩, d] := .single hs
  obtain ⟨he, -, -, -, hc⟩ := confluence [a, b, c, d]
  exact ⟨hj, he _ hj, hc [a, b] [c, d] rfl, by decide⟩

end Coalesce
