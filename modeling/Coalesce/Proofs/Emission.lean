import Coalesce.Compress

namespace Coalesce

/-- The open run as a token. -/
def Merger.held (m : Merger) : List Token := m.finish.1.toList

/-- A merger that has been given `ts`. -/
def Merger.after (ts : List Token) : Merger := (({} : Merger).feed ts).2

/-- The tokens that are final once `ts` has been pushed, whatever comes next. -/
def final (ts : List Token) : List Token := (({} : Merger).feed ts).1

def dropLastLiteral (ts : List Token) : List Token :=
  match ts.getLast? with
  | some t => if t.isLiteral then ts.dropLast else ts
  | none => ts

@[simp] theorem final_nil : final [] = [] := rfl

@[simp] theorem Merger.held_empty : ({} : Merger).held = [] := rfl

@[simp] theorem Merger.held_of_pending_none {m : Merger} (h : m.pending = none) : m.held = [] := by
  simp [held, finish, h]

@[simp] theorem Merger.held_of_pending_some {m : Merger} {r : Run} (h : m.pending = some r) :
    m.held = [r.toToken] := by
  simp [held, finish, h]

theorem Merger.length_held (m : Merger) : m.held.length = m.pending.toList.length := by
  cases h : m.pending <;> simp [h]

namespace Merger

variable {t : Token} {r : Run}

theorem push_interpolation (m : Merger) (h : t.kind = .interpolation) :
    m.push t = (⟨m.finish.1, some t⟩, {}) := by
  simp [push, h]

theorem push_opening (h : t.kind = .literal) :
    ({} : Merger).push t = ({}, ⟨some (.ofToken t)⟩) := by
  simp [push, h]

theorem push_touching (h : t.kind = .literal) (hs : r.span.stop = t.span.start) :
    (⟨some r⟩ : Merger).push t = ({}, ⟨some (r.extend t)⟩) := by
  simp [push, h, hs]

theorem push_apart (h : t.kind = .literal) (hs : r.span.stop ≠ t.span.start) :
    (⟨some r⟩ : Merger).push t = (.singleton r.toToken, ⟨some (.ofToken t)⟩) := by
  simp [push, h, hs]

end Merger

theorem final_concat (ts : List Token) (t : Token) :
    final (ts ++ [t]) = final ts ++ ((Merger.after ts).push t).1.toList := by
  simp [final, Merger.after, Merger.feed_append, Merger.feed]

theorem Merger.after_concat (ts : List Token) (t : Token) :
    Merger.after (ts ++ [t]) = ((Merger.after ts).push t).2 := by
  simp [Merger.after, Merger.feed_append, Merger.feed]

theorem compress_eq_final (ts : List Token) : compress ts = final ts ++ (Merger.after ts).held :=
  compress_eq ts

theorem final_prefix_compress (ts : List Token) : final ts <+: compress ts := by
  rw [compress_eq_final]
  exact List.prefix_append _ _

theorem isLiteral_getLast_final {ts : List Token} {t : Token}
    (hp : (Merger.after ts).pending = none) (ht : (final ts).getLast? = some t) :
    t.isLiteral = false := by
  -- The last token pushed would be held back if it were a literal.
  rcases List.eq_nil_or_concat ts with rfl | ⟨us, u, rfl⟩
  · simp at ht
  · rw [List.concat_eq_append] at hp ht
    have hu : u.isLiteral = false := by
      rw [← Merger.hasPending_push (Merger.after us) u, ← Merger.after_concat]
      simp [Merger.hasPending, hp]
    have hk : u.kind = .interpolation := by
      cases h : u.kind <;> simp_all [Token.isLiteral]
    rw [final_concat, Merger.push_interpolation _ hk] at ht
    simp only [Emitted.toList, Option.toList_some, ← List.append_assoc, List.getLast?_concat,
      Option.some.injEq] at ht
    exact ht ▸ hu

/-- What is final after `ts` is all of `compress ts` but the open run. -/
theorem dropLastLiteral_compress (ts : List Token) : dropLastLiteral (compress ts) = final ts := by
  rw [compress_eq_final]
  -- An open run is a literal, and with none open the last token is not.
  cases hp : (Merger.after ts).pending with
  | some r => simp [dropLastLiteral, hp, Token.isLiteral, Run.toToken]
  | none =>
    rw [Merger.held_of_pending_none hp, List.append_nil, dropLastLiteral]
    split
    · rename_i t ht
      simp [isLiteral_getLast_final hp ht]
    · rfl

theorem Merger.length_feed_le (m : Merger) (ts : List Token) :
    (m.feed ts).1.length + (m.feed ts).2.held.length ≤ m.held.length + ts.length := by
  induction ts generalizing m with
  | nil => simp [feed]
  | cons t ts ih =>
    have hp := m.length_push_le t
    have hf := ih (m.push t).2
    rw [← length_held, ← length_held] at hp
    simp only [feed, List.length_append, Emitted.length_toList, List.length_cons]
    omega

theorem final_append (ts us : List Token) :
    final (ts ++ us) = final ts ++ ((Merger.after ts).feed us).1 := by
  simp [final, Merger.after, Merger.feed_append]

theorem final_prefix_append (ts us : List Token) : final ts <+: final (ts ++ us) := by
  rw [final_append]
  exact List.prefix_append _ _

theorem final_prefix_compress_append (ts us : List Token) : final ts <+: compress (ts ++ us) :=
  (final_prefix_append ts us).trans (final_prefix_compress _)

theorem Merger.hasPending_after (ts : List Token) :
    (Merger.after ts).hasPending = true ↔ ∃ t, ts.getLast? = some t ∧ t.isLiteral = true := by
  rcases List.eq_nil_or_concat ts with rfl | ⟨us, u, rfl⟩
  · simp [after, feed, hasPending]
  · simp [after_concat, hasPending_push]

theorem compress_concat_of_touches {ts : List Token} {t : Token} {r : Run}
    (hp : (Merger.after ts).pending = some r) (hk : t.kind = .literal)
    (ht : r.span.stop = t.span.start) :
    compress (ts ++ [t]) = final ts ++ [(r.extend t).toToken] := by
  have hm : Merger.after ts = ⟨some r⟩ := by rw [← hp]
  rw [compress_eq_final, final_concat, Merger.after_concat, hm, Merger.push_touching hk ht]
  simp

/-- Nothing but what is final is safe from every continuation. -/
theorem prefix_final_of_forall {ts xs : List Token} (h : ∀ us, xs <+: compress (ts ++ us)) :
    xs <+: final ts := by
  have hnil := h []
  rw [List.append_nil, compress_eq_final] at hnil
  cases hp : (Merger.after ts).pending with
  | none => simpa [hp] using hnil
  | some r =>
    rw [Merger.held_of_pending_some hp] at hnil
    rcases List.prefix_concat_iff.1 hnil with rfl | hx
    · -- One more character in the open run, and its token is another one.
      have hx := h [⟨.literal, "x", ⟨r.span.stop, r.span.stop⟩⟩]
      rw [compress_concat_of_touches hp rfl rfl] at hx
      have he := hx.eq_of_length (by simp)
      have ht : r.text = r.text ++ "x" := by simpa [Run.toToken, Run.extend] using he
      have hl := congrArg String.length ht
      rw [String.length_append] at hl
      simp at hl
    · exact hx

/-- The tokens emitted so far are exactly those that no continuation takes back: none comes early,
and none comes late. -/
theorem emission_exact (ts : List Token) :
    (∀ xs, (∀ us, xs <+: compress (ts ++ us)) ↔ xs <+: final ts) ∧
    final ts ++ (Merger.after ts).finish.1.toList = compress ts ∧
    ((Merger.after ts).hasPending = true ↔ ∃ t, ts.getLast? = some t ∧ t.isLiteral = true) := by
  refine ⟨?_, (compress_eq_final ts).symm, Merger.hasPending_after ts⟩
  intro xs
  constructor
  · exact prefix_final_of_forall
  · intro hx us
    exact hx.trans (final_prefix_compress_append ts us)

end Coalesce
