import Mathlib
import Coalesce.Json.Scalar
import Coalesce.Proofs.Json.Reads

namespace Coalesce.Json

open Reader

section Escapes

theorem digitChar_toNat :
    ∀ n < 16, (Nat.digitChar n).toNat = if n < 10 then 48 + n else 87 + n := by
  decide

theorem upperDigitChar_toNat :
    ∀ n < 16, (Nat.digitChar n).toUpper.toNat = if n < 10 then 48 + n else 55 + n := by
  decide

theorem hexDigit_iff {c : Char} {n : Nat} : HexDigit c n ↔
    n < 16 ∧ (n < 10 ∧ c.toNat = 48 + n ∨ 10 ≤ n ∧ (c.toNat = 87 + n ∨ c.toNat = 55 + n)) := by
  simp only [HexDigit, ← Char.toNat_inj]
  constructor
  · rintro ⟨hn, h⟩
    rw [digitChar_toNat n hn, upperDigitChar_toNat n hn] at h
    grind
  · rintro ⟨hn, h⟩
    rw [digitChar_toNat n hn, upperDigitChar_toNat n hn]
    grind

theorem char_le_iff (c d : Char) : c ≤ d ↔ c.toNat ≤ d.toNat := by
  rw [Char.le_def, UInt32.le_iff_toNat_le, Char.toNat_val, Char.toNat_val]

theorem hexValue_eq_some {c : Char} {n : Nat} : hexValue c = some n ↔ HexDigit c n := by
  -- Both sides become ranges of numbers.
  rw [hexDigit_iff]
  unfold hexValue
  simp only [char_le_iff, Char.reduceToNat]
  grind

theorem CodeUnit.lt {n : Nat} {u : List Char} (h : CodeUnit n u) : n < 0x10000 := by
  obtain ⟨ha, hb, hc, hd⟩ := h
  have := ha.1
  have := hb.1
  have := hc.1
  have := hd.1
  omega

theorem hexQuad_eq_some {a b c d : Char} {n : Nat} :
    hexQuad a b c d = some n ↔ CodeUnit n [a, b, c, d] := by
  simp only [hexQuad, Option.pure_def, Option.bind_eq_bind, Option.bind_eq_some_iff,
    Option.some.injEq, hexValue_eq_some]
  constructor
  · rintro ⟨i, ha, j, hb, k, hc, l, hd, rfl⟩
    exact .quad ha hb hc hd
  · rintro ⟨ha, hb, hc, hd⟩
    exact ⟨_, ha, _, hb, _, hc, _, hd, rfl⟩

theorem run_codeUnit {n : Nat} {u : List Char} (h : CodeUnit n u) (r : List Char) :
    run codeUnit (u ++ r) = .ok (n, r) := by
  obtain ⟨ha, hb, hc, hd⟩ := h
  have hq := hexQuad_eq_some.mpr (.quad ha hb hc hd)
  simp [run, codeUnit, hq]

theorem of_run_codeUnit {s r : List Char} {n : Nat} (h : run codeUnit s = .ok (n, r)) :
    ∃ u, CodeUnit n u ∧ s = u ++ r := by
  unfold run codeUnit at h
  split at h
  · cases h
  · rename_i hs
    split at hs
    · split at hs
      · rename_i hq
        cases hs
        cases h
        exact ⟨_, hexQuad_eq_some.mp hq, rfl⟩
      · cases hs
    · cases hs

theorem simpleEscape_eq_some {e c : Char} : simpleEscape e = some c ↔ (e, c) ∈ shortEscapes := by
  unfold simpleEscape shortEscapes
  split <;> simp_all [eq_comm]

section

variable {α : Type} {simple : Char → α} {code : Reader α}

theorem run_escape_short {e c : Char} (h : (e, c) ∈ shortEscapes) (s : List Char) :
    run (escape simple code) (e :: s) = .ok (simple c, s) := by
  simp [escape, simpleEscape_eq_some.mpr h]

theorem run_escape_unit (s : List Char) : run (escape simple code) ('u' :: s) = run code s := by
  have h : simpleEscape 'u' = none := rfl
  simp [escape, h]

theorem of_run_escape {s r : List Char} {a : α} (h : run (escape simple code) s = .ok (a, r)) :
    (∃ e c, (e, c) ∈ shortEscapes ∧ a = simple c ∧ s = e :: r) ∨
      ∃ t, s = 'u' :: t ∧ run code t = .ok (a, r) := by
  cases s with
  | nil => cases h
  | cons e t =>
    cases he : simpleEscape e with
    | some c =>
      rw [run_escape_short (simpleEscape_eq_some.mp he)] at h
      cases h
      exact .inl ⟨e, c, simpleEscape_eq_some.mp he, rfl, rfl⟩
    | none =>
      by_cases hu : e = 'u'
      · rw [hu, run_escape_unit] at h
        exact .inr ⟨t, by rw [hu], h⟩
      · simp [escape, he, hu] at h

end

theorem run_pairMark_eq_ok {c : Char} {s r : List Char} {x : Unit} :
    run (pairMark c) s = .ok (x, r) ↔ s = c :: r := by
  cases s with
  | nil => simp [pairMark]
  | cons d t =>
    by_cases hd : d = c
    · simp [pairMark, hd]
    · simp [pairMark, hd]

theorem isLeadingSurrogate_iff (n : Nat) : isLeadingSurrogate n ↔ 0xD800 ≤ n ∧ n ≤ 0xDBFF := by
  simp [isLeadingSurrogate]

theorem isTrailingSurrogate_iff (n : Nat) : isTrailingSurrogate n ↔ 0xDC00 ≤ n ∧ n ≤ 0xDFFF := by
  simp [isTrailingSurrogate]

theorem run_unicodeEscape_unit {c : Char} {u : List Char} (h : CodeUnit c.toNat u) (r : List Char) :
    run unicodeEscape (u ++ r) = .ok (c, r) := by
  have hc : c.toNat < 0xD800 ∨ 0xDFFF < c.toNat ∧ c.toNat < 0x110000 := c.valid
  have htrail : ¬isTrailingSurrogate c.toNat := by rw [isTrailingSurrogate_iff]; omega
  have hlead : ¬isLeadingSurrogate c.toNat := by rw [isLeadingSurrogate_iff]; omega
  unfold unicodeEscape
  rw [run_bind_of_ok (run_codeUnit h r), if_neg htrail, if_neg hlead, run_pure, Char.ofNat_toNat]

theorem run_unicodeEscape_pair {c : Char} {m n : Nat} {u v : List Char} (hu : CodeUnit m u)
    (hv : CodeUnit n v) (hm : 0xD800 ≤ m) (hm' : m ≤ 0xDBFF) (hn : 0xDC00 ≤ n) (hn' : n ≤ 0xDFFF)
    (hc : c.toNat = 0x10000 + ((m - 0xD800) * 0x400 + (n - 0xDC00))) (r : List Char) :
    run unicodeEscape (u ++ '\\' :: 'u' :: (v ++ r)) = .ok (c, r) := by
  have hlead : isLeadingSurrogate m := (isLeadingSurrogate_iff m).mpr ⟨hm, hm'⟩
  have hnot : ¬isTrailingSurrogate m := by rw [isTrailingSurrogate_iff]; omega
  have htrail : isTrailingSurrogate n := (isTrailingSurrogate_iff n).mpr ⟨hn, hn'⟩
  have hpair : ofSurrogates m n = c := by
    rw [ofSurrogates, Nat.add_comm, ← hc, Char.ofNat_toNat]
  have hmark (d : Char) (t : List Char) : run (pairMark d) (d :: t) = .ok ((), t) :=
    run_pairMark_eq_ok.mpr rfl
  unfold unicodeEscape
  rw [run_bind_of_ok (run_codeUnit hu _), if_neg hnot, if_pos hlead, run_bind_of_ok (hmark _ _),
    run_bind_of_ok (hmark _ _), run_bind_of_ok (run_codeUnit hv r), if_pos htrail, run_pure, hpair]

theorem of_run_unicodeEscape {s r : List Char} {c : Char}
    (hrun : run unicodeEscape s = .ok (c, r)) :
    ∃ u, CharText c ('\\' :: 'u' :: u) ∧ s = u ++ r := by
  obtain ⟨m, q, hm, h⟩ := run_bind_eq_ok.mp hrun
  obtain ⟨u, hu, rfl⟩ := of_run_codeUnit hm
  have hlt := hu.lt
  -- A unit that is no surrogate is a character of its own. A trailing surrogate never comes first.
  by_cases htrail : isTrailingSurrogate m
  · simp [htrail] at h
  rw [if_neg htrail] at h
  by_cases hlead : isLeadingSurrogate m
  · rw [if_pos hlead] at h
    obtain ⟨_, q₁, h₁, h⟩ := run_bind_eq_ok.mp h
    obtain ⟨_, q₂, h₂, h⟩ := run_bind_eq_ok.mp h
    obtain ⟨n, q₃, hn, h⟩ := run_bind_eq_ok.mp h
    obtain ⟨v, hv, hs⟩ := of_run_codeUnit hn
    rw [run_pairMark_eq_ok] at h₁ h₂
    by_cases hpair : isTrailingSurrogate n
    · rw [if_pos hpair] at h
      obtain ⟨rfl, rfl⟩ := run_pure_eq_ok.mp h
      rw [isLeadingSurrogate_iff] at hlead
      rw [isTrailingSurrogate_iff] at hpair
      refine ⟨u ++ '\\' :: 'u' :: v, .pair hu hv hlead.1 hlead.2 hpair.1 hpair.2 ?_, ?_⟩
      · rw [ofSurrogates, Char.toNat_ofNat, if_pos (.inr ⟨by omega, by omega⟩)]
        omega
      · simp [h₁, h₂, hs]
    · simp [hpair] at h
  · rw [if_neg hlead] at h
    obtain ⟨rfl, rfl⟩ := run_pure_eq_ok.mp h
    rw [isLeadingSurrogate_iff] at hlead
    rw [isTrailingSurrogate_iff] at htrail
    have hvalid : m.isValidChar := by
      unfold Nat.isValidChar
      omega
    exact ⟨u, .unit (by rwa [Char.toNat_ofNat, if_pos hvalid]), rfl⟩

theorem of_run_charEscape {s r : List Char} {c : Char}
    (h : run (escape id unicodeEscape) s = .ok (c, r)) :
    ∃ u, CharText c ('\\' :: u) ∧ s = u ++ r := by
  obtain ⟨e, d, he, hd, hs⟩ | ⟨t, hs, hcode⟩ := of_run_escape h
  · exact ⟨[e], hd ▸ .short he, hs⟩
  · obtain ⟨u, hu, ht⟩ := of_run_unicodeEscape hcode
    exact ⟨'u' :: u, hu, by rw [hs, ht]; rfl⟩

/-- An escape that nobody asks for may be half of a surrogate pair. -/
theorem of_run_pieceEscape {s r : List Char} {x : Unit}
    (h : run (escape (fun _ => ()) (do let _ ← codeUnit)) s = .ok (x, r)) :
    ∃ u, Piece ('\\' :: u) ∧ s = u ++ r := by
  obtain ⟨e, d, he, -, hs⟩ | ⟨t, hs, hcode⟩ := of_run_escape h
  · exact ⟨[e], .short he, hs⟩
  · obtain ⟨n, q, hunit, hend⟩ := run_bind_eq_ok.mp hcode
    obtain ⟨-, rfl⟩ := run_pure_eq_ok.mp hend
    obtain ⟨u, hu, ht⟩ := of_run_codeUnit hunit
    exact ⟨'u' :: u, .unit hu, by rw [hs, ht]; rfl⟩

end Escapes

section Bodies

/-- The characters of a string, behind its opening quote. -/
def body : Reader (List Char) := characters

/-- A string behind its opening quote, when nobody asks for its characters. -/
def skipBody : Reader Unit := skipCharacters

theorem run_body_nil : run body [] = .error ⟨.endInString, [], 0⟩ := by
  rw [run_eq_forget, body, characters.eq_def]
  rfl

theorem run_body_cons (c : Char) (t : List Char) : run body (c :: t) =
    if c = '"' then .ok ([], t)
    else if c = '\\' then run (do let d ← escape id unicodeEscape; let ds ← body; pure (d :: ds)) t
    else if c < ' ' then .error ⟨.controlCharacter, c :: t, 1⟩
    else run (do let ds ← body; pure (c :: ds)) t := by
  rw [run_eq_forget, body, characters.eq_def, ← body]
  by_cases hquote : c = '"'
  · simp only [if_pos hquote, forget_ok]
  by_cases hescape : c = '\\'
  · simp only [if_neg hquote, if_pos hescape]
    rw [run_bind, run_eq_forget]
    cases escape id unicodeEscape t with
    | error e => rfl
    | ok x =>
      obtain ⟨d, r, h⟩ := x
      simp only [forget_ok]
      rw [run_bind, run_eq_forget]
      cases body r <;> rfl
  by_cases hcontrol : c < ' '
  · simp only [if_neg hquote, if_neg hescape, if_pos hcontrol, forget_error]
  · simp only [if_neg hquote, if_neg hescape, if_neg hcontrol]
    rw [run_bind, run_eq_forget]
    cases body t <;> rfl

theorem run_skipBody_nil : run skipBody [] = .error ⟨.endInString, [], 0⟩ := by
  rw [run_eq_forget, skipBody, skipCharacters.eq_def]
  rfl

theorem run_skipBody_cons (c : Char) (t : List Char) : run skipBody (c :: t) =
    if c = '"' then .ok ((), t)
    else if c = '\\' then run (do escape (fun _ => ()) (do let _ ← codeUnit); skipBody) t
    else if c < ' ' then .error ⟨.controlCharacter, c :: t, 0⟩
    else run skipBody t := by
  rw [run_eq_forget, skipBody, skipCharacters.eq_def, ← skipBody]
  by_cases hquote : c = '"'
  · simp only [if_pos hquote, forget_ok]
  by_cases hescape : c = '\\'
  · simp only [if_neg hquote, if_pos hescape]
    rw [run_bind, run_eq_forget]
    cases escape (fun _ => ()) (do let _ ← codeUnit) t with
    | error e => rfl
    | ok x =>
      obtain ⟨d, r, h⟩ := x
      simp only [forget_ok, forget_shorten, run_eq_forget]
  by_cases hcontrol : c < ' '
  · simp only [if_neg hquote, if_neg hescape, if_pos hcontrol, forget_error]
  · simp only [if_neg hquote, if_neg hescape, if_neg hcontrol, forget_shorten, run_eq_forget]

theorem run_body_escape {c : Char} {u t r : List Char} {ds : List Char}
    (hu : run (escape id unicodeEscape) (u ++ t) = .ok (c, t)) (ht : run body t = .ok (ds, r)) :
    run body ('\\' :: (u ++ t)) = .ok (c :: ds, r) := by
  rw [run_body_cons, if_neg (by decide), if_pos rfl, run_bind_of_ok hu, run_bind_of_ok ht]
  rfl

theorem run_body {cs v : List Char} (h : CharsText cs v) (r : List Char) :
    run body (v ++ '"' :: r) = .ok (cs, r) := by
  induction h with
  | nil => rw [List.nil_append, run_body_cons, if_pos rfl]
  | cons hc _ ih =>
    rw [List.append_assoc]
    cases hc with
    | plain hle hquote hback =>
      rw [List.singleton_append, run_body_cons, if_neg hquote, if_neg hback,
        if_neg (Char.not_lt.mpr hle), run_bind_of_ok ih]
      rfl
    | short he => exact run_body_escape (u := [_]) (run_escape_short he _) ih
    | unit hu =>
      refine run_body_escape (u := 'u' :: _) ((run_escape_unit _).trans ?_) ih
      exact run_unicodeEscape_unit hu _
    | pair hu hv hm hm' hn hn' hc =>
      have hpair := run_unicodeEscape_pair hu hv hm hm' hn hn' hc
      refine run_body_escape (u := 'u' :: (_ ++ '\\' :: 'u' :: _)) ((run_escape_unit _).trans ?_) ih
      simpa using hpair _

theorem of_run_body {s cs r : List Char} (h : run body s = .ok (cs, r)) :
    ∃ v, CharsText cs v ∧ s = v ++ '"' :: r := by
  -- An escape takes several characters at once, so the induction is on the length.
  induction hn : s.length using Nat.strongRecOn generalizing s cs with
  | ind n ih =>
    cases s with
    | nil => rw [run_body_nil] at h; cases h
    | cons c t =>
      rw [run_body_cons] at h
      split at h
      · rename_i hc
        cases h
        exact ⟨[], .nil, by rw [hc]; rfl⟩
      split at h
      · rename_i hc
        obtain ⟨d, q, hd, h⟩ := run_bind_eq_ok.mp h
        obtain ⟨ds, q', hds, h⟩ := run_bind_eq_ok.mp h
        obtain ⟨rfl, rfl⟩ := run_pure_eq_ok.mp h
        obtain ⟨u, hu, ht⟩ := of_run_charEscape hd
        have hlt : q.length < n := by
          simp only [← hn, ht, List.length_cons, List.length_append]
          omega
        obtain ⟨v, hv, hq⟩ := ih q.length hlt hds rfl
        exact ⟨('\\' :: u) ++ v, .cons hu hv, by simp [hc, ht, hq]⟩
      split at h
      · cases h
      · rename_i hquote hback hcontrol
        obtain ⟨ds, q, hds, h⟩ := run_bind_eq_ok.mp h
        obtain ⟨rfl, rfl⟩ := run_pure_eq_ok.mp h
        obtain ⟨v, hv, ht⟩ := ih t.length (by simp [← hn]) hds rfl
        have hc := CharText.plain (Char.not_lt.mp hcontrol) hquote hback
        exact ⟨[c] ++ v, .cons hc hv, by simp [ht]⟩

theorem run_skipBody {v : List Char} (h : Pieces v) (r : List Char) :
    run skipBody (v ++ '"' :: r) = .ok ((), r) := by
  induction h with
  | nil => rw [List.nil_append, run_skipBody_cons, if_pos rfl]
  | cons hv _ ih =>
    rw [List.append_assoc]
    cases hv with
    | plain hle hquote hback =>
      rw [List.singleton_append, run_skipBody_cons, if_neg hquote, if_neg hback,
        if_neg (Char.not_lt.mpr hle), ih]
    | short he =>
      rw [List.cons_append, run_skipBody_cons, if_neg (by decide), if_pos rfl]
      exact (run_bind_of_ok (run_escape_short he _)).trans ih
    | unit hu =>
      rw [List.cons_append, List.cons_append, run_skipBody_cons, if_neg (by decide), if_pos rfl,
        run_bind, run_escape_unit, run_bind_of_ok (run_codeUnit hu _)]
      exact ih

theorem of_run_skipBody {s r : List Char} {x : Unit} (h : run skipBody s = .ok (x, r)) :
    ∃ v, Pieces v ∧ s = v ++ '"' :: r := by
  induction hn : s.length using Nat.strongRecOn generalizing s with
  | ind n ih =>
    cases s with
    | nil => rw [run_skipBody_nil] at h; cases h
    | cons c t =>
      rw [run_skipBody_cons] at h
      split at h
      · rename_i hc
        cases h
        exact ⟨[], .nil, by rw [hc]; rfl⟩
      split at h
      · rename_i hc
        obtain ⟨_, q, hd, h⟩ := run_bind_eq_ok.mp h
        obtain ⟨u, hu, ht⟩ := of_run_pieceEscape hd
        have hlt : q.length < n := by
          simp only [← hn, ht, List.length_cons, List.length_append]
          omega
        obtain ⟨v, hv, hq⟩ := ih q.length hlt h rfl
        exact ⟨('\\' :: u) ++ v, .cons hu hv, by simp [hc, ht, hq]⟩
      split at h
      · cases h
      · rename_i hquote hback hcontrol
        obtain ⟨v, hv, ht⟩ := ih t.length (by simp [← hn]) h rfl
        have hc := Piece.plain (Char.not_lt.mp hcontrol) hquote hback
        exact ⟨[c] ++ v, .cons hc hv, by simp [ht]⟩

end Bodies

section Texts

theorem run_text_eq_ok {x : String} {s r : List Char} :
    run text s = .ok (x, r) ↔ ∃ v, CharsText x.toList v ∧ s = v ++ '"' :: r := by
  constructor
  · intro h
    change run (do return String.ofList (← body)) s = _ at h
    obtain ⟨cs, q, hcs, h⟩ := run_bind_eq_ok.mp h
    obtain ⟨rfl, rfl⟩ := run_pure_eq_ok.mp h
    rw [String.toList_ofList]
    exact of_run_body hcs
  · rintro ⟨v, hv, rfl⟩
    have hbody := run_body hv r
    have h := run_bind_of_ok (f := fun cs => pure (String.ofList cs)) hbody
    rw [run_pure, String.ofList_toList] at h
    exact h

/-- Behind the opening quote of a string. -/
theorem run_text_iff {x : String} {s r : List Char} :
    run text s = .ok (x, r) ↔ ∃ u, StringText x u ∧ '"' :: s = u ++ r := by
  rw [run_text_eq_ok]
  constructor
  · rintro ⟨v, hv, rfl⟩
    exact ⟨_, ⟨v, hv, rfl⟩, by simp⟩
  · rintro ⟨_, ⟨v, hv, rfl⟩, h⟩
    exact ⟨v, hv, by simpa using h⟩

theorem run_text {x : String} {v : List Char} (h : StringText x ('"' :: v)) (r : List Char) :
    run text (v ++ r) = .ok (x, r) := run_text_iff.mpr ⟨_, h, rfl⟩

theorem StringText.front {x : String} {u : List Char} (h : StringText x u) :
    ∃ t, u = '"' :: t := by
  obtain ⟨v, -, rfl⟩ := h
  exact ⟨_, rfl⟩

theorem not_blank_quote : ¬Blank '"' := by simp [Blank]

/-- No value of another type is read instead. -/
theorem run_wrongType_ne_ok {α : Type} (expected : String) (s r : List Char) (a : α) :
    run (wrongType expected) s ≠ .ok (a, r) := by
  intro h
  obtain ⟨_, _, -, h⟩ := run_bind_eq_ok.mp h
  cases h

theorem reads_string : Reads string StringText := by
  refine .of_front (fun a r h => by cases h) ?_ ?_ ?_
  · intro c t r x h
    dsimp only at h
    by_cases hc : c = '"'
    · rw [if_pos hc, hc, run_advance_bind] at h
      rw [hc]
      exact run_text_iff.mp h
    · rw [if_neg hc] at h
      exact absurd h (run_wrongType_ne_ok _ _ _ _)
  · intro c t r x hx _
    obtain ⟨t', ht⟩ := hx.front
    cases ht
    dsimp only
    rw [if_pos rfl, run_advance_bind, run_text hx]
  · intro x u hx
    obtain ⟨t, rfl⟩ := hx.front
    exact ⟨'"', t, rfl, not_blank_quote, by decide⟩

theorem reads_null : Reads null fun _ u => u = ['n', 'u', 'l', 'l'] := by
  refine .of_front (fun a r h => by cases h) ?_ ?_ ?_
  · intro c t r x h
    dsimp only at h
    by_cases hc : c = 'n'
    · rw [if_pos hc, hc, run_advance_bind, run_word] at h
      exact ⟨_, rfl, by rw [hc, h]; rfl⟩
    · rw [if_neg hc] at h
      exact absurd h (run_wrongType_ne_ok _ _ _ _)
  · intro c t r x hu _
    cases hu
    dsimp only
    rw [if_pos rfl, run_advance_bind, run_word]
  · rintro _ _ rfl
    exact ⟨'n', _, rfl, by simp [Blank], by decide⟩

end Texts

end Coalesce.Json
