import Coalesce.Text.Quoted

namespace Coalesce.Text

variable {r r' u v : List Char}

theorem append_cons_inj {a : Char} (hu : a ∉ u) (hv : a ∉ v) (h : u ++ a :: r = v ++ a :: r') :
    u = v ∧ r = r' := by
  induction u generalizing v with
  | nil =>
    cases v with
    | nil => exact ⟨rfl, (List.cons.inj h).2⟩
    | cons x v => exact absurd (List.mem_cons.2 (.inl (List.cons.inj h).1)) hv
  | cons x u ih =>
    cases v with
    | nil => exact absurd (List.mem_cons.2 (.inl (List.cons.inj h).1.symm)) hu
    | cons y v =>
      obtain ⟨hxy, ht⟩ := List.cons.inj h
      obtain ⟨huv, hr⟩ := ih (List.not_mem_of_not_mem_cons hu) (List.not_mem_of_not_mem_cons hv) ht
      exact ⟨by rw [hxy, huv], hr⟩

section Digits

variable {b m n : Nat}

theorem exists_digitChar {c : Char} (hb : 1 < b) (hc : c ∈ Nat.toDigits b n) :
    ∃ i, c = Nat.digitChar i := by
  induction n using Nat.strongRecOn with
  | ind n ih =>
    rw [Nat.toDigits_eq_if hb] at hc
    split at hc
    · exact ⟨n, List.mem_singleton.1 hc⟩
    · rename_i hn
      rcases List.mem_append.1 hc with hc | hc
      · exact ih (n / b) (Nat.div_lt_self (by omega) hb) hc
      · exact ⟨n % b, List.mem_singleton.1 hc⟩

theorem digitChar_inj : ∀ i < 16, ∀ j < 16, Nat.digitChar i = Nat.digitChar j → i = j := by decide

theorem toDigits_inj (hb : 1 < b) (hb' : b ≤ 16) (h : Nat.toDigits b m = Nat.toDigits b n) :
    m = n := by
  have hone : ∀ k, (Nat.toDigits b k).length ≤ 1 ↔ k < b := by
    intro k
    rw [Nat.length_toDigits_le_iff hb Nat.one_pos, Nat.pow_one]
  induction m using Nat.strongRecOn generalizing n with
  | ind m ih =>
    -- The two have as many digits, so that both have one or both have more.
    have hlt : m < b ↔ n < b := by rw [← hone, ← hone, h]
    by_cases hm : m < b
    · have hn := hlt.1 hm
      rw [Nat.toDigits_of_lt_base hm, Nat.toDigits_of_lt_base hn] at h
      exact digitChar_inj m (by omega) n (by omega) (List.cons.inj h).1
    · have hn := mt hlt.2 hm
      rw [Nat.toDigits_of_base_le hb (Nat.not_lt.1 hm),
        Nat.toDigits_of_base_le hb (Nat.not_lt.1 hn)] at h
      obtain ⟨hfront, hlast⟩ := List.append_inj' h rfl
      have hdiv := ih (m / b) (Nat.div_lt_self (by omega) hb) hfront
      have hm' := Nat.mod_lt m (Nat.lt_of_succ_lt hb)
      have hn' := Nat.mod_lt n (Nat.lt_of_succ_lt hb)
      have hmod := digitChar_inj _ (by omega) _ (by omega) (List.cons.inj hlast).1
      rw [← Nat.div_add_mod m b, ← Nat.div_add_mod n b, hdiv, hmod]

theorem toDigits_append_inj {a : Char} (hb : 1 < b) (hb' : b ≤ 16) (ha : ∀ i, Nat.digitChar i ≠ a)
    (h : Nat.toDigits b m ++ a :: r = Nat.toDigits b n ++ a :: r') : m = n ∧ r = r' := by
  have hnot : ∀ k, a ∉ Nat.toDigits b k := by
    intro k hk
    obtain ⟨i, hi⟩ := exists_digitChar hb hk
    exact ha i hi.symm
  obtain ⟨hd, hr⟩ := append_cons_inj (hnot m) (hnot n) h
  exact ⟨toDigits_inj hb hb' hd, hr⟩

end Digits

/-- The letters that stand behind a backslash, each for one character. -/
def letters : List (Char × Char) :=
  [('\x00', '0'), ('\t', 't'), ('\n', 'n'), ('\r', 'r'), ('"', '"'), ('\\', '\\')]

/-- What can stand for a character between double quotes. -/
inductive Spelling : Char → List Char → Prop where
  | plain {c : Char} (hquote : c ≠ '"') (hback : c ≠ '\\') : Spelling c [c]
  | letter {c l : Char} (h : (c, l) ∈ letters) : Spelling c ['\\', l]
  | point (c : Char) : Spelling c ('\\' :: 'u' :: '{' :: (Nat.toDigits 16 c.toNat ++ ['}']))

theorem spelling_escaped (c : Char) : Spelling c (escaped c) := by
  unfold escaped
  split
  · rename_i h
    exact h ▸ .letter (by decide)
  split
  · rename_i h
    exact h ▸ .letter (by decide)
  split
  · rename_i h
    exact h ▸ .letter (by decide)
  split
  · rename_i h
    exact h ▸ .letter (by decide)
  split
  · rename_i h
    rcases h with rfl | rfl <;> exact .letter (by decide)
  rename_i h
  obtain ⟨hquote, hback⟩ := not_or.1 h
  split
  · exact .point c
  · exact .plain hquote hback

namespace Spelling

variable {c d : Char}

theorem ne_quote (h : Spelling c u) : u ++ r ≠ '"' :: r' := by
  cases h with
  | plain hquote _ => exact fun he => hquote (List.cons.inj he).1
  | letter _ => exact fun he => absurd (List.cons.inj he).1 (by decide)
  | point => exact fun he => absurd (List.cons.inj he).1 (by decide)

theorem letter_ne_u : ∀ p ∈ letters, p.2 ≠ 'u' := by decide

theorem fst_eq_of_snd : ∀ p ∈ letters, ∀ q ∈ letters, p.2 = q.2 → p.1 = q.1 := by decide

/-- Where one spelling ends and what it stands for can be read off the text. -/
theorem inj (hc : Spelling c u) (hd : Spelling d v) (h : u ++ r = v ++ r') : c = d ∧ r = r' := by
  cases hc with
  | plain _ hback =>
    cases hd with
    | plain _ _ => exact List.cons.inj h
    | letter _ => exact absurd (List.cons.inj h).1 hback
    | point => exact absurd (List.cons.inj h).1 hback
  | letter hl =>
    cases hd with
    | plain _ hback => exact absurd (List.cons.inj h).1.symm hback
    | letter hl' =>
      obtain ⟨he, hr⟩ := List.cons.inj (List.cons.inj h).2
      exact ⟨fst_eq_of_snd _ hl _ hl' he, hr⟩
    | point => exact absurd (List.cons.inj (List.cons.inj h).2).1 (letter_ne_u _ hl)
  | point =>
    cases hd with
    | plain _ hback => exact absurd (List.cons.inj h).1.symm hback
    | letter hl => exact absurd (List.cons.inj (List.cons.inj h).2).1.symm (letter_ne_u _ hl)
    | point =>
      have hp : Nat.toDigits 16 c.toNat ++ '}' :: r = Nat.toDigits 16 d.toNat ++ '}' :: r' := by
        simpa using h
      have hbrace : ∀ i, Nat.digitChar i ≠ '}' := fun _ => Nat.digitChar_ne '}' rfl
      obtain ⟨hn, hr⟩ := toDigits_append_inj (by decide) (by decide) hbrace hp
      exact ⟨Char.toNat_inj.1 hn, hr⟩

end Spelling

/-- Where a text ends can be seen whatever is behind it. -/
theorem flatMap_escaped_inj {s t : List Char}
    (h : s.flatMap escaped ++ '"' :: r = t.flatMap escaped ++ '"' :: r') : s = t ∧ r = r' := by
  induction s generalizing t with
  | nil =>
    cases t with
    | nil => exact ⟨rfl, (List.cons.inj h).2⟩
    | cons d t =>
      rw [List.flatMap_cons, List.append_assoc] at h
      exact absurd h.symm (spelling_escaped d).ne_quote
  | cons c s ih =>
    rw [List.flatMap_cons, List.append_assoc] at h
    cases t with
    | nil => exact absurd h (spelling_escaped c).ne_quote
    | cons d t =>
      rw [List.flatMap_cons, List.append_assoc] at h
      obtain ⟨rfl, ht⟩ := (spelling_escaped c).inj (spelling_escaped d) h
      obtain ⟨rfl, hr⟩ := ih ht
      exact ⟨rfl, hr⟩

theorem quoted_append_inj {s t : String} :
    (quoted s).toList ++ r = (quoted t).toList ++ r' ↔ s = t ∧ r = r' := by
  constructor
  · intro h
    simp only [quoted, String.toList_ofList, List.cons_append, List.append_assoc,
      List.nil_append, List.cons.injEq, true_and] at h
    obtain ⟨hs, hr⟩ := flatMap_escaped_inj h
    exact ⟨String.toList_inj.1 hs, hr⟩
  · rintro ⟨rfl, rfl⟩
    rfl

end Coalesce.Text
