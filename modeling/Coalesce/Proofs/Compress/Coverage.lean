import Mathlib.Algebra.Ring.Nat
import Coalesce.Proofs.Compress.Confluence

namespace Coalesce

instance : Membership UInt64 Span := ⟨fun s i => s.start ≤ i ∧ i < s.stop⟩

instance (s : Span) (i : UInt64) : Decidable (i ∈ s) := inferInstanceAs (Decidable (_ ∧ _))

namespace Span

variable {s t : Span}

theorem mem_iff_toNat {i : UInt64} :
    i ∈ s ↔ s.start.toNat ≤ i.toNat ∧ i.toNat < s.stop.toNat := by
  rw [← UInt64.le_iff_toNat_le, ← UInt64.lt_iff_toNat_lt]
  rfl

def hull (s t : Span) : Span := ⟨s.start, t.stop⟩

theorem mem_hull (hs : s.start ≤ s.stop) (ht : t.start ≤ t.stop) (h : s.stop = t.start)
    (i : UInt64) : i ∈ s.hull t ↔ i ∈ s ∨ i ∈ t := by
  rw [UInt64.le_iff_toNat_le] at hs ht
  simp only [mem_iff_toNat, hull, h] at *
  omega

theorem length_hull (hs : s.start ≤ s.stop) (ht : t.start ≤ t.stop) (h : s.stop = t.start) :
    (s.hull t).length.toNat = s.length.toNat + t.length.toNat := by
  rw [UInt64.le_iff_toNat_le] at hs ht
  simp only [toNat_length, hull, h] at *
  omega

end Span

def textOf (ts : List Token) : String := String.join (ts.map (·.text))

def extent (ts : List Token) : Nat := ((ts.filter Token.isLiteral).map (·.span.length.toNat)).sum

/-- The offset `i` lies in a literal. -/
def Covers (ts : List Token) (i : UInt64) : Prop := ∃ t ∈ ts, t.kind = .literal ∧ i ∈ t.span

instance (ts : List Token) (i : UInt64) : Decidable (Covers ts i) :=
  inferInstanceAs (Decidable (∃ t ∈ ts, _))

/-- No token runs backward. -/
def Forward (ts : List Token) : Prop := ∀ t ∈ ts, t.span.start ≤ t.span.stop

/-- Tokens as they stand in a source: none is empty, and none starts before the one before it
stops. -/
structure InOrder (ts : List Token) : Prop where
  nonempty : ∀ t ∈ ts, t.span.start < t.span.stop
  follow : ts.IsChain fun x y => x.span.stop ≤ y.span.start

instance (ts : List Token) : Decidable (Forward ts) := inferInstanceAs (Decidable (∀ t ∈ ts, _))

instance (ts : List Token) : Decidable (InOrder ts) :=
  decidable_of_iff (_ ∧ _) ⟨fun h => ⟨h.1, h.2⟩, fun h => ⟨h.nonempty, h.follow⟩⟩

/-- `us` tells the same text in the same place as `ts`, with the same interpolations. -/
structure Retells (ts us : List Token) : Prop where
  text : textOf us = textOf ts
  start : us.head?.map (·.span.start) = ts.head?.map (·.span.start)
  stop : us.getLast?.map (·.span.stop) = ts.getLast?.map (·.span.stop)
  interpolations : us.filter Token.isInterpolation = ts.filter Token.isInterpolation

/-- The literals of `us` lie where those of `ts` lie. -/
structure SameGround (ts us : List Token) : Prop where
  extent : extent us = extent ts
  covers : ∀ i, Covers us i ↔ Covers ts i

variable {ts us : List Token} {x : Token}

section Measures

variable {i : UInt64}

theorem textOf_cons (t : Token) (ts : List Token) : textOf (t :: ts) = t.text ++ textOf ts := by
  rw [textOf, List.map_cons, String.join_cons]
  rfl

theorem textOf_append (ts us : List Token) : textOf (ts ++ us) = textOf ts ++ textOf us := by
  rw [textOf, List.map_append, String.join_append]
  rfl

theorem extent_cons (h : x.kind = .literal) (ts : List Token) :
    extent (x :: ts) = x.span.length.toNat + extent ts := by
  simp [extent, Token.isLiteral, h]

theorem extent_append (ts us : List Token) : extent (ts ++ us) = extent ts + extent us := by
  simp [extent]

theorem covers_cons (h : x.kind = .literal) : Covers (x :: ts) i ↔ i ∈ x.span ∨ Covers ts i := by
  simp [Covers, h]

theorem covers_append : Covers (ts ++ us) i ↔ Covers ts i ∨ Covers us i := by
  simp only [Covers, List.mem_append, or_and_right, exists_or]

end Measures

namespace JoinStep

theorem retells (h : JoinStep ts us) : Retells ts us := by
  obtain ⟨before, after, h⟩ := h
  refine ⟨?_, ?_, ?_, ?_⟩
  · simp only [textOf_append, textOf_cons, Token.join, String.append_assoc]
  · cases before <;> rfl
  · rw [List.getLast?_append, List.getLast?_append, List.getLast?_cons, List.getLast?_cons_cons,
      List.getLast?_cons]
    cases after.getLast? <;> rfl
  · obtain ⟨hx, hy, -⟩ := h
    simp [Token.isInterpolation, Token.join, hx, hy]

theorem forward (h : JoinStep ts us) (hf : Forward ts) : Forward us := by
  obtain ⟨before, after, ⟨-, -, hs⟩⟩ := h
  simp only [Forward, List.forall_mem_append, List.forall_mem_cons] at hf ⊢
  obtain ⟨hb, hx, hy, ha⟩ := hf
  refine ⟨hb, ?_, ha⟩
  rw [hs] at hx
  exact UInt64.le_trans hx hy

theorem sameGround (h : JoinStep ts us) (hf : Forward ts) : SameGround ts us := by
  obtain @⟨before, after, x, y, hkx, hky, hs⟩ := h
  simp only [Forward, List.forall_mem_append, List.forall_mem_cons] at hf
  obtain ⟨-, hx, hy, -⟩ := hf
  constructor
  · have hl : (x.join y).span.length.toNat = x.span.length.toNat + y.span.length.toNat :=
      Span.length_hull hx hy hs
    rw [extent_append, extent_append, extent_cons rfl, extent_cons hkx, extent_cons hky]
    omega
  · intro i
    have hm : i ∈ (x.join y).span ↔ i ∈ x.span ∨ i ∈ y.span := Span.mem_hull hx hy hs i
    rw [covers_append, covers_append, covers_cons rfl, covers_cons hkx, covers_cons hky, hm,
      or_assoc]

theorem inOrder (h : JoinStep ts us) (ho : InOrder ts) : InOrder us := by
  obtain ⟨before, after, ⟨-, -, hs⟩⟩ := h
  obtain ⟨hn, hc⟩ := ho
  simp only [List.forall_mem_append, List.forall_mem_cons] at hn
  obtain ⟨hb, hx, hy, ha⟩ := hn
  obtain ⟨hcb, -, hca⟩ := List.isChain_append_cons_cons.1 hc
  constructor
  · simp only [List.forall_mem_append, List.forall_mem_cons]
    refine ⟨hb, ?_, ha⟩
    rw [hs] at hx
    exact UInt64.lt_trans hx hy
  · -- The join starts where its first half does, and stops where its second does.
    rw [List.isChain_split]
    constructor
    · rw [List.isChain_append] at hcb ⊢
      exact ⟨hcb.1, .singleton _, by simpa [Token.join] using hcb.2.2⟩
    · rw [List.isChain_cons] at hca ⊢
      exact hca

end JoinStep

namespace Joins

theorem retells (h : Joins ts us) : Retells ts us := by
  induction h with
  | refl => exact ⟨rfl, rfl, rfl, rfl⟩
  | tail _ hs ih =>
    have hr := hs.retells
    exact ⟨hr.text.trans ih.text, hr.start.trans ih.start, hr.stop.trans ih.stop,
      hr.interpolations.trans ih.interpolations⟩

theorem sameGround (h : Joins ts us) (hf : Forward ts) : Forward us ∧ SameGround ts us := by
  induction h with
  | refl => exact ⟨hf, rfl, fun _ => Iff.rfl⟩
  | tail _ hs ih =>
    obtain ⟨hf, hg⟩ := ih
    have hr := hs.sameGround hf
    exact ⟨hs.forward hf, hr.extent.trans hg.extent, fun i => (hr.covers i).trans (hg.covers i)⟩

theorem inOrder (h : Joins ts us) (ho : InOrder ts) : InOrder us := by
  induction h with
  | refl => exact ho
  | tail _ hs ih => exact hs.inOrder ih

end Joins

def Token.Precedes (x y : Token) : Prop :=
  x.span.stop ≤ y.span.start ∧ y.span.start < y.span.stop

instance : Trans Token.Precedes Token.Precedes Token.Precedes where
  trans := by
    rintro x y z ⟨hxy, hy⟩ ⟨hyz, hz⟩
    have hxz := UInt64.le_trans hxy (UInt64.le_trans (UInt64.le_of_lt hy) hyz)
    exact ⟨hxz, hz⟩

namespace InOrder

theorem isEmpty_eq_false (h : InOrder ts) {t : Token} (ht : t ∈ ts) : t.span.isEmpty = false := by
  have hn := h.nonempty t ht
  rw [UInt64.lt_iff_toNat_lt] at hn
  simp only [Span.isEmpty, decide_eq_false_iff_not, UInt64.le_iff_toNat_le]
  omega

/-- As no token between them is empty, any two tokens follow each other like neighbours. -/
theorem pairwise (h : InOrder ts) : ts.Pairwise Token.Precedes := by
  have hc : ts.IsChain Token.Precedes :=
    h.follow.imp_of_mem_imp fun x y _ hy hxy => ⟨hxy, h.nonempty y hy⟩
  exact hc.pairwise

theorem disjoint (h : InOrder ts) : ts.Pairwise fun x y => ∀ i, i ∈ x.span → i ∉ y.span := by
  apply h.pairwise.imp
  rintro x y ⟨hxy, -⟩ i hx hy
  rw [UInt64.le_iff_toNat_le] at hxy
  rw [Span.mem_iff_toNat] at hx hy
  omega

end InOrder

/-- Compression keeps the text, where it begins and ends, and all interpolations. If no token runs
backward, the literals still lie on the same ground, and tokens that are in order stay so, with no
two of them on one offset. -/
theorem coverage (ts : List Token) :
    Retells ts (compress ts) ∧
    (Forward ts → SameGround ts (compress ts)) ∧
    (InOrder ts → InOrder (compress ts) ∧ (∀ t ∈ compress ts, t.span.isEmpty = false) ∧
      (compress ts).Pairwise fun x y => ∀ i, i ∈ x.span → i ∉ y.span) := by
  have hj := joins_compress ts
  refine ⟨hj.retells, fun hf => (hj.sameGround hf).2, ?_⟩
  intro ho
  have hc := hj.inOrder ho
  exact ⟨hc, fun t ht => hc.isEmpty_eq_false ht, hc.disjoint⟩

/-- An escape leaves a gap between literals that are not joined over it, and offset 3 stays
uncovered. -/
theorem coverage_gap :
    let ts : List Token := [⟨.literal, "fo", ⟨0, 2⟩⟩, ⟨.literal, "o", ⟨2, 3⟩⟩,
      ⟨.literal, "\x7b", ⟨4, 5⟩⟩, ⟨.literal, "x", ⟨5, 6⟩⟩, ⟨.interpolation, "y", ⟨7, 8⟩⟩]
    let us : List Token := [⟨.literal, "foo", ⟨0, 3⟩⟩, ⟨.literal, "\x7bx", ⟨4, 6⟩⟩,
      ⟨.interpolation, "y", ⟨7, 8⟩⟩]
    compress ts = us ∧ Forward ts ∧ InOrder ts ∧ textOf us = textOf ts ∧
      extent us = extent ts ∧ (∀ i, Covers us i ↔ Covers ts i) ∧ ¬ Covers ts 3 ∧
      InOrder us ∧ us.Pairwise fun x y => ∀ i, i ∈ x.span → i ∉ y.span := by
  intro ts us
  have hc : compress ts = us := by decide
  have hf : Forward ts := by decide
  have ho : InOrder ts := by decide
  obtain ⟨hr, hg, hi⟩ := coverage ts
  have hg := hg hf
  obtain ⟨hi, -, hd⟩ := hi ho
  rw [hc] at hr hg hi hd
  exact ⟨hc, hf, ho, hr.text, hg.extent, hg.covers, by decide, hi, hd⟩

end Coalesce
