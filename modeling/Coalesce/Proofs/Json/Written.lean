import Coalesce.Json.Writer
import Coalesce.Proofs.Json.Strings

namespace Coalesce.Json

section Strings

theorem hexDigit_digitChar {n : Nat} (h : n < 16) : HexDigit (Nat.digitChar n) n := ⟨h, .inl rfl⟩

/-- What a character is written as is one of its spellings. -/
theorem charText_escapedChar (c : Char) : CharText c (escapedChar c) := by
  unfold escapedChar
  split
  · rename_i h
    rcases h with rfl | rfl <;> exact .short (by decide)
  split
  · rename_i h
    exact h ▸ .short (by decide)
  split
  · rename_i h
    exact h ▸ .short (by decide)
  split
  · rename_i h
    exact h ▸ .short (by decide)
  split
  · rename_i h
    exact h ▸ .short (by decide)
  split
  · rename_i h
    exact h ▸ .short (by decide)
  rename_i hspecial _ _ _ _ _
  obtain ⟨hquote, hback⟩ := not_or.mp hspecial
  split
  · rename_i hcontrol
    have hlt : c.toNat < 32 := by
      rw [← Char.not_le, char_le_iff] at hcontrol
      exact Nat.lt_of_not_le hcontrol
    have hunit : CodeUnit (((0 * 16 + 0) * 16 + c.toNat / 16) * 16 + c.toNat % 16) _ :=
      .quad (hexDigit_digitChar (by decide)) (hexDigit_digitChar (by decide))
        (hexDigit_digitChar (by omega)) (hexDigit_digitChar (by omega))
    rw [show ((0 * 16 + 0) * 16 + c.toNat / 16) * 16 + c.toNat % 16 = c.toNat by omega] at hunit
    exact .unit hunit
  · rename_i hcontrol
    exact .plain (Char.not_lt.mp hcontrol) hquote hback

theorem stringText_writeText (x : String) : StringText x (writeText x) := by
  have h (cs : List Char) : CharsText cs (cs.flatMap escapedChar) := by
    induction cs with
    | nil => exact .nil
    | cons c cs ih => exact .cons (charText_escapedChar c) ih
  exact ⟨_, h x.toList, rfl⟩

end Strings

section Numbers

/-- Only zero is written with a leading zero. -/
theorem head?_toDigits (n : Nat) (h : (Nat.toDigits 10 n).head? = some '0') : n = 0 := by
  induction n using Nat.strongRecOn with
  | ind n ih =>
    by_cases hn : n < 10
    · rw [Nat.toDigits_of_lt_base hn] at h
      exact Nat.digitChar_eq_zero.mp (Option.some.inj h)
    · -- The first digit of `n` is that of `n / 10`.
      have hsplit := Nat.toDigits_of_base_le (b := 10) (by decide) (Nat.not_lt.mp hn)
      obtain ⟨c, d, hd⟩ := List.exists_cons_of_ne_nil (Nat.toDigits_ne_nil (n := n / 10) (b := 10))
      rw [hsplit, hd, List.cons_append, List.head?_cons] at h
      have hzero : n / 10 = 0 := ih (n / 10) (by omega) (by rw [hd, List.head?_cons, h])
      omega

theorem wordText_writeWord (n : UInt64) : WordText n (writeWord n) := by
  refine ⟨⟨⟨?_, ?_⟩, ?_⟩, Nat.ofDigitChars_ten_toDigits⟩
  · exact List.ne_nil_of_length_pos Nat.length_toDigits_pos
  · exact fun c hc => Nat.isDigit_of_mem_toDigits (by decide) (by decide) hc
  · intro h
    rw [writeWord, head?_toDigits _ h]
    rfl

end Numbers

section Lists

variable {α : Type} {I : α → List Char → Prop} {w : α → List Char} {as : List α}

theorem intercalate_comma (u : List Char) (us : List (List Char)) :
    List.intercalate [','] (u :: us) = u ++ us.flatMap (',' :: ·) := by
  induction us generalizing u with
  | nil => simp [List.intercalate]
  | cons v us ih => rw [List.intercalate_cons_cons, ih]; simp

theorem further_flatMap (h : ∀ a ∈ as, I a (w a)) :
    Further I as (as.flatMap fun a => ',' :: w a) := by
  induction as with
  | nil => exact .nil .nil
  | cons a as ih =>
    obtain ⟨ha, has⟩ := List.forall_mem_cons.mp h
    exact .cons .nil .nil ha (ih has)

/-- Items that are written with commas between them and nothing else make a list. -/
theorem enclosed_intercalate (o c : Char) (h : ∀ a ∈ as, I a (w a)) :
    Enclosed o c I as (o :: List.intercalate [','] (as.map w) ++ [c]) := by
  cases as with
  | nil => exact .nil .nil
  | cons a as =>
    obtain ⟨ha, has⟩ := List.forall_mem_cons.mp h
    rw [List.map_cons, intercalate_comma, List.flatMap_map, List.cons_append, List.append_assoc]
    exact .cons .nil ha (further_flatMap has)

theorem isObject_writeObject (ms : List Member) :
    IsObject ms (writeObject (ms.map fun m => writeMember m.key m.value)) :=
  enclosed_intercalate '{' '}' fun m _ =>
    .mk (b := []) (stringText_writeText m.key) .nil .nil

end Lists

end Coalesce.Json
