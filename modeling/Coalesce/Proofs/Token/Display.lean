import Coalesce.Proofs.Text.Quoted
import Coalesce.Token.Display

namespace Coalesce

open Text

variable {r r' : List Char}

theorem Kind.display_append_inj {k l : Kind}
    (h : k.display.toList ++ '(' :: r = l.display.toList ++ '(' :: r') : k = l ∧ r = r' := by
  have hnot : ∀ k : Kind, '(' ∉ k.display.toList := by
    intro k
    cases k <;> decide
  obtain ⟨hk, hr⟩ := append_cons_inj (hnot k) (hnot l) h
  refine ⟨?_, hr⟩
  cases k <;> cases l <;> first | rfl | exact absurd hk (by decide)

theorem Span.toList_display (s : Span) : s.display.toList =
    Nat.toDigits 10 s.start.toNat ++ '.' :: '.' :: Nat.toDigits 10 s.stop.toNat := by
  simp [display, Nat.repr_eq_ofList_toDigits]

theorem Span.display_append_inj {s t : Span}
    (h : s.display.toList ++ ')' :: r = t.display.toList ++ ')' :: r') : s = t ∧ r = r' := by
  rw [toList_display, toList_display, List.append_assoc, List.append_assoc] at h
  have hdot : ∀ i, Nat.digitChar i ≠ '.' := fun _ => Nat.digitChar_ne '.' rfl
  have hclose : ∀ i, Nat.digitChar i ≠ ')' := fun _ => Nat.digitChar_ne ')' rfl
  obtain ⟨hstart, h⟩ := toDigits_append_inj (by decide) (by decide) hdot h
  obtain ⟨hstop, hr⟩ := toDigits_append_inj (by decide) (by decide) hclose (List.cons.inj h).2
  obtain ⟨i, j⟩ := s
  obtain ⟨k, l⟩ := t
  obtain rfl : i = k := UInt64.toNat_inj.1 hstart
  obtain rfl : j = l := UInt64.toNat_inj.1 hstop
  exact ⟨rfl, hr⟩

namespace Token

theorem toList_display (t : Token) : t.display.toList =
    t.kind.display.toList ++
      '(' :: ((quoted t.text).toList ++ ',' :: ' ' :: (t.span.display.toList ++ [')'])) := by
  simp [display]

/-- Two tokens are displayed alike only if they are the same, whatever their texts contain. -/
theorem display_inj {t u : Token} : t.display = u.display ↔ t = u := by
  refine ⟨fun h => ?_, congrArg display⟩
  have hl := congrArg String.toList h
  rw [toList_display, toList_display] at hl
  obtain ⟨hkind, hl⟩ := Kind.display_append_inj hl
  obtain ⟨htext, hl⟩ := quoted_append_inj.1 hl
  obtain ⟨hspan, -⟩ := Span.display_append_inj (List.cons.inj (List.cons.inj hl).2).2
  obtain ⟨k, x, i⟩ := t
  obtain ⟨l, y, j⟩ := u
  obtain rfl : k = l := hkind
  obtain rfl : x = y := htext
  obtain rfl : i = j := hspan
  rfl

/-- What looks like the end of a token is none inside its text. -/
example : display ⟨.literal, "a\", 0..1)", ⟨0, 9⟩⟩ = "Literal(\"a\\\", 0..1)\", 0..9)" := by
  decide +kernel

end Token

end Coalesce
