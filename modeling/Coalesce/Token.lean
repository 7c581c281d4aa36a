namespace Coalesce

inductive Kind where
  | literal
  | interpolation
  deriving DecidableEq

/-- Half-open: `start` lies in the span and `stop` does not. Nothing orders the two. -/
structure Span where
  start : UInt64 := 0
  stop : UInt64 := 0
  deriving DecidableEq

namespace Span

def isEmpty (s : Span) : Bool := s.stop ≤ s.start

/-- A span that stops before it starts has length zero. -/
def length (s : Span) : UInt64 := if s.isEmpty then 0 else s.stop - s.start

theorem toNat_length (s : Span) : s.length.toNat = s.stop.toNat - s.start.toNat := by
  unfold length isEmpty
  split <;> rename_i h <;> simp only [decide_eq_true_eq, UInt64.le_iff_toNat_le] at h
  · simp; omega
  · rw [UInt64.toNat_sub_of_le _ _ (by rw [UInt64.le_iff_toNat_le]; omega)]

end Span

/-- A piece of a template. A literal holds its text with escapes resolved, an interpolation the
expression between the braces as it was written. -/
structure Token where
  kind : Kind
  text : String
  span : Span
  deriving DecidableEq

namespace Token

def isLiteral (t : Token) : Bool := t.kind = .literal

def isInterpolation (t : Token) : Bool := t.kind = .interpolation

/-- Two literals touch when one starts exactly where the other stops. -/
def Touches (x y : Token) : Prop :=
  x.kind = .literal ∧ y.kind = .literal ∧ x.span.stop = y.span.start

instance (x y : Token) : Decidable (Touches x y) := inferInstanceAs (Decidable (_ ∧ _ ∧ _))

end Token

end Coalesce
