import Coalesce.Proofs.Emission

namespace Coalesce

namespace Token

def join (x y : Token) : Token := ⟨.literal, x.text ++ y.text, ⟨x.span.start, y.span.stop⟩⟩

/-- Puts a token in front of compressed ones. -/
def prepend (t : Token) : List Token → List Token
  | [] => [t]
  | u :: us => if t.Touches u then t.join u :: us else t :: u :: us

variable {x y z : Token}

theorem join_join : (x.join y).join z = x.join (y.join z) := by
  simp [join, String.append_assoc]

theorem touches_join (h : y.kind = .literal) : x.Touches (y.join z) ↔ x.Touches y := by
  simp [Touches, join, h]

theorem join_touches (h : y.kind = .literal) : (x.join y).Touches z ↔ y.Touches z := by
  simp [Touches, join, h]

@[simp] theorem prepend_nil : x.prepend [] = [x] := rfl

theorem prepend_of_touches {ts : List Token} (h : x.Touches y) :
    x.prepend (y :: ts) = x.join y :: ts := if_pos h

theorem prepend_of_not_touches {ts : List Token} (h : ¬ x.Touches y) :
    x.prepend (y :: ts) = x :: y :: ts := if_neg h

theorem prepend_of_interpolation (h : x.kind = .interpolation) (ts : List Token) :
    x.prepend ts = x :: ts := by
  cases ts with
  | nil => rfl
  | cons y ts => exact prepend_of_not_touches (by simp [Touches, h])

/-- Of three tokens, it does not matter which two are joined first. -/
theorem prepend_prepend (h : x.Touches y) (ts : List Token) :
    x.prepend (y.prepend ts) = (x.join y).prepend ts := by
  have hy : y.kind = .literal := h.2.1
  cases ts with
  | nil => exact prepend_of_touches h
  | cons z ts =>
    by_cases hz : y.Touches z
    · rw [prepend_of_touches hz, prepend_of_touches ((touches_join hy).2 h),
        prepend_of_touches ((join_touches hy).2 hz), join_join]
    · rw [prepend_of_not_touches hz, prepend_of_touches h,
        prepend_of_not_touches (mt (join_touches hy).1 hz)]

theorem prepend_prepend_of_not_touches (h : ¬ x.Touches y) (ts : List Token) :
    x.prepend (y.prepend ts) = x :: y.prepend ts := by
  cases ts with
  | nil => exact prepend_of_not_touches h
  | cons z ts =>
    by_cases hz : y.Touches z
    · rw [prepend_of_touches hz, prepend_of_not_touches (mt (touches_join hz.1).1 h)]
    · rw [prepend_of_not_touches hz, prepend_of_not_touches h]

end Token

namespace Run

theorem toToken_extend (r : Run) (t : Token) : (r.extend t).toToken = r.toToken.join t := rfl

theorem toToken_ofToken {t : Token} (h : t.kind = .literal) : (ofToken t).toToken = t := by
  rw [ofToken, toToken, ← h]

theorem touches_toToken {r : Run} {t : Token} (h : t.kind = .literal) :
    r.toToken.Touches t ↔ r.span.stop = t.span.start := by
  simp [Token.Touches, toToken, h]

end Run

namespace Merger

/-- All that a merger still gives if it is given `ts` and then the input ends. -/
def complete (m : Merger) (ts : List Token) : List Token := (m.feed ts).1 ++ (m.feed ts).2.held

theorem complete_empty (ts : List Token) : ({} : Merger).complete ts = compress ts :=
  (compress_eq_final ts).symm

theorem complete_cons (m : Merger) (t : Token) (ts : List Token) :
    m.complete (t :: ts) = (m.push t).1.toList ++ (m.push t).2.complete ts := by
  simp [complete, feed]

variable {t : Token} {r : Run}

theorem complete_of_interpolation (m : Merger) (h : t.kind = .interpolation) (ts : List Token) :
    m.complete (t :: ts) = m.held ++ t :: compress ts := by
  rw [complete_cons, push_interpolation m h, complete_empty]
  simp [Emitted.toList, held]

theorem compress_of_interpolation (h : t.kind = .interpolation) (ts : List Token) :
    compress (t :: ts) = t :: compress ts := by
  rw [← complete_empty, complete_of_interpolation _ h]
  rfl

theorem complete_open (h : t.kind = .literal) (ts : List Token) :
    compress (t :: ts) = (⟨some (.ofToken t)⟩ : Merger).complete ts := by
  rw [← complete_empty, complete_cons, push_opening h]
  rfl

theorem complete_joined (h : t.kind = .literal) (hs : r.span.stop = t.span.start)
    (ts : List Token) :
    (⟨some r⟩ : Merger).complete (t :: ts) = (⟨some (r.extend t)⟩ : Merger).complete ts := by
  rw [complete_cons, push_touching h hs]
  rfl

theorem complete_gap (h : t.kind = .literal) (hs : r.span.stop ≠ t.span.start) (ts : List Token) :
    (⟨some r⟩ : Merger).complete (t :: ts) = r.toToken :: compress (t :: ts) := by
  rw [complete_cons, push_apart h hs, complete_open h]
  rfl

/-- An open run counts as a token in front of those still to come. -/
theorem complete_some (r : Run) (ts : List Token) :
    (⟨some r⟩ : Merger).complete ts = r.toToken.prepend (compress ts) := by
  -- What follows the next token follows a run, too, be it this one or the one the token opens.
  induction ts generalizing r with
  | nil => rfl
  | cons t ts ih =>
    cases hk : t.kind with
    | interpolation =>
      have hn : ¬ r.toToken.Touches t := by simp [Token.Touches, hk]
      rw [complete_of_interpolation _ hk, compress_of_interpolation hk,
        Token.prepend_of_not_touches hn]
      rfl
    | literal =>
      have hc : compress (t :: ts) = t.prepend (compress ts) := by
        rw [complete_open hk, ih, Run.toToken_ofToken hk]
      by_cases hs : r.span.stop = t.span.start
      · rw [complete_joined hk hs, ih, hc, Run.toToken_extend,
          Token.prepend_prepend ((Run.touches_toToken hk).2 hs)]
      · rw [complete_gap hk hs, hc,
          Token.prepend_prepend_of_not_touches (mt (Run.touches_toToken hk).1 hs)]

end Merger

/-- Compression from the end gives what compression from the start gives. -/
theorem compress_cons (t : Token) (ts : List Token) :
    compress (t :: ts) = t.prepend (compress ts) := by
  cases hk : t.kind with
  | interpolation =>
    rw [Merger.compress_of_interpolation hk, Token.prepend_of_interpolation hk]
  | literal => rw [Merger.complete_open hk, Merger.complete_some, Run.toToken_ofToken hk]

end Coalesce
