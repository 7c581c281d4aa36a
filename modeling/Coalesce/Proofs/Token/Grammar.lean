import Coalesce.Proofs.Json.Records
import Coalesce.Token.Json

namespace Coalesce

open Json Json.Reader

/-- A kind by its name: the name as a string, or as the key of a single null. -/
def Variant (name : String) (u : List Char) : Prop :=
  StringText name u ∨ IsObject [⟨name, ['n', 'u', 'l', 'l']⟩] u

inductive KindText : Kind → List Char → Prop
  | literal {u : List Char} : Variant "literal" u → KindText .literal u
  | interpolation {u : List Char} : Variant "interpolation" u → KindText .interpolation u

inductive SpanText (s : Span) (u : List Char) : Prop
  | object {ms : List Member} : IsObject ms u → Once "start" ms (WordText s.start) →
      Once "end" ms (WordText s.stop) →
      (∀ m ∈ ms, m.key ∉ ["start", "end"] → Value m.value) → SpanText s u
  | array {v w : List Char} : IsArray [v, w] u → WordText s.start v → WordText s.stop w →
      SpanText s u

/-- The texts that denote a token: an object with each of its parts once, among other members with
any values, or an array of just the parts. -/
inductive TokenText (t : Token) (u : List Char) : Prop
  | object {ms : List Member} : IsObject ms u → Once "type" ms (KindText t.kind) →
      Once "value" ms (StringText t.text) → Once "range" ms (SpanText t.span) →
      (∀ m ∈ ms, m.key ∉ ["type", "value", "range"] → Value m.value) → TokenText t u
  | array {v w z : List Char} : IsArray [v, w, z] u → KindText t.kind v → StringText t.text w →
      SpanText t.span z → TokenText t u

section Kinds

theorem kindText_iff {k : Kind} {u : List Char} :
    KindText k u ↔ ∃ name, Kind.ofJsonName name = .ok k ∧ Variant name u := by
  constructor
  · rintro (h | h)
    · exact ⟨_, rfl, h⟩
    · exact ⟨_, rfl, h⟩
  · rintro ⟨name, hname, h⟩
    unfold Kind.ofJsonName at hname
    split at hname
    · rename_i hn
      cases hname
      exact .literal (hn ▸ h)
    split at hname
    · rename_i hn
      cases hname
      exact .interpolation (hn ▸ h)
    · cases hname

theorem run_named_eq_ok {name : String} {k : Kind} {s r : List Char} :
    run (Kind.named name) s = .ok (k, r) ↔ Kind.ofJsonName name = .ok k ∧ s = r := by
  unfold Kind.named
  split <;> simp_all

theorem run_keyed {name : String} {k : Kind} {t r : List Char}
    (hname : Kind.ofJsonName name = .ok k)
    (ht : IsObject [⟨name, ['n', 'u', 'l', 'l']⟩] ('{' :: t)) :
    run Kind.keyed (t ++ r) = .ok (k, r) := by
  cases ht with
  | @cons _ _ b u w hb hm hw =>
    cases hw with
    | nil hw =>
      obtain ⟨key, b₁, b₂, hkey, hb₁, hb₂, rfl⟩ := hm.parts
      obtain ⟨v, rfl⟩ := hkey.front
      have hnull := reads_null.complete (a := ()) hb₂ rfl (hw.apart (apart_close .curly r))
      simp only [List.append_assoc, List.cons_append, List.nil_append] at hnull ⊢
      unfold Kind.keyed
      rw [run_front _ hb not_blank_quote]
      refine (run_advance_bind _ _ _).trans ((run_bind_of_ok (run_text hkey _)).trans ?_)
      rw [run_bind_of_ok (run_named_eq_ok.mpr ⟨hname, rfl⟩), run_bind_of_ok (run_colon hb₁ _)]
      exact (run_bind_of_ok hnull).trans (run_front _ hw (not_blank_close .curly) r)

theorem of_run_keyed {k : Kind} {s r : List Char} (hrun : run Kind.keyed s = .ok (k, r)) :
    ∃ name t, Kind.ofJsonName name = .ok k ∧
      IsObject [⟨name, ['n', 'u', 'l', 'l']⟩] ('{' :: t) ∧ s = t ++ r := by
  obtain ⟨-, h⟩ | ⟨b, c, t, hb, -, hs, h⟩ := front_of_run hrun
  · cases h
  split at h
  · contradiction
  · rename_i hc
    cases hc
    rw [run_advance_bind] at h
    obtain ⟨name, q₁, htext, h⟩ := run_bind_eq_ok.mp h
    obtain ⟨k', q₂, hnamed, h⟩ := run_bind_eq_ok.mp h
    obtain ⟨_, q₃, hcolon, h⟩ := run_bind_eq_ok.mp h
    obtain ⟨_, q₄, hnull, hend⟩ := run_bind_eq_ok.mp h
    obtain ⟨hname, rfl⟩ := run_named_eq_ok.mp hnamed
    obtain ⟨key, hkey, ht⟩ := run_text_iff.mp htext
    obtain ⟨b₁, hb₁, rfl⟩ := of_run_colon hcolon
    obtain ⟨b₂, v, hb₂, rfl, rfl⟩ := reads_null.sound hnull
    obtain ⟨-, h⟩ | ⟨b₃, c, w, hb₃, -, hq, h⟩ := front_of_run hend
    · cases h
    dsimp only at h
    split at h
    · rename_i hc
      rw [run_advance_bind] at h
      obtain ⟨rfl, rfl⟩ := run_pure_eq_ok.mp h
      exact ⟨name, _, hname, .cons hb (.mk hkey hb₁ hb₂) (.nil hb₃), by simp [hs, ht, hq, hc]⟩
    · cases h
  · cases h
  · cases h

theorem reads_kind : Reads Kind.read KindText := by
  refine .of_front (fun a r h => by cases h) ?_ ?_ ?_
  · intro c t r k h
    dsimp only at h
    split at h
    · rename_i hc
      rw [run_advance_bind] at h
      obtain ⟨name, q, htext, h⟩ := run_bind_eq_ok.mp h
      obtain ⟨hname, rfl⟩ := run_named_eq_ok.mp h
      obtain ⟨u, hu, ht⟩ := run_text_iff.mp htext
      exact ⟨u, kindText_iff.mpr ⟨name, hname, .inl hu⟩, by rw [hc, ht]⟩
    split at h
    · rename_i hc
      rw [run_advance_bind] at h
      obtain ⟨name, u, hname, hu, rfl⟩ := of_run_keyed h
      exact ⟨'{' :: u, kindText_iff.mpr ⟨name, hname, .inr hu⟩, by rw [hc]; rfl⟩
    · cases h
  · intro c t r k hk hr
    dsimp only
    obtain ⟨name, hname, hu | hu⟩ := kindText_iff.mp hk
    · obtain ⟨v, hv⟩ := hu.front
      cases hv
      rw [if_pos rfl, run_advance_bind]
      exact (run_bind_of_ok (run_text hu r)).trans (run_named_eq_ok.mpr ⟨hname, rfl⟩)
    · obtain ⟨v, hv⟩ := Enclosed.front hu
      cases hv
      rw [if_neg (by decide), if_pos rfl, run_advance_bind, run_keyed hname hu]
  · intro k u hk
    obtain ⟨name, -, hu | hu⟩ := kindText_iff.mp hk
    · obtain ⟨v, rfl⟩ := hu.front
      exact ⟨_, v, rfl, not_blank_quote, by decide⟩
    · obtain ⟨v, rfl⟩ := Enclosed.front hu
      exact ⟨_, v, rfl, not_blank_opening .curly, by decide⟩

end Kinds

section Spans

def Span.slots : List (Slot Span.Parts) :=
  [⟨UInt64, "start", word64, Span.Parts.start, fun x n => { x with start := some n }, WordText,
      reads_word⟩,
    ⟨UInt64, "end", word64, Span.Parts.stop, fun x n => { x with stop := some n }, WordText,
      reads_word⟩]

theorem Span.record_slots : Span.record.Slots Span.slots where
  fields := rfl
  nodup := by decide
  get_set := by simp [Span.slots]
  frame := by simp [Span.slots]
  empty := by simp [Span.slots, Span.record]
  ext := by
    rintro ⟨_, _⟩ ⟨_, _⟩
    simp [Span.slots]

theorem Span.finish_eq_ok {x : Span.Parts} {s : Span} :
    Span.record.finish x = .ok s ↔ x = ⟨some s.start, some s.stop⟩ := by
  obtain ⟨_ | start, _ | stop⟩ := x <;> obtain ⟨start', stop'⟩ := s <;> simp [Span.record]

theorem Span.through_iff {ms : List Member} {s : Span} :
    Through (Takes Span.slots) ms Span.record.empty ⟨some s.start, some s.stop⟩ ↔
      Once "start" ms (WordText s.start) ∧ Once "end" ms (WordText s.stop) ∧
        ∀ m ∈ ms, m.key ∉ ["start", "end"] → Value m.value := by
  rw [Span.record_slots.through_empty_iff (by simp [Span.slots])]
  simp [Span.slots, and_assoc, eq_comm]

theorem Span.denotes_iff (s : Span) (u : List Char) :
    Span.record.Denotes Span.slots s u ↔ SpanText s u := by
  constructor
  · rintro (⟨hms, hx, hs⟩ | ⟨hus, hx, hs⟩)
    · obtain rfl := Span.finish_eq_ok.mp hs
      obtain ⟨hstart, hstop, hothers⟩ := Span.through_iff.mp hx
      exact .object hms hstart hstop hothers
    · obtain rfl := Span.finish_eq_ok.mp hs
      cases hx with
      | cons hstart hx =>
        cases hx with
        | cons hstop hx =>
          cases hx
          exact .array hus hstart hstop
  · rintro (⟨hms, hstart, hstop, hothers⟩ | ⟨hus, hstart, hstop⟩)
    · have hx := Span.through_iff.mpr ⟨hstart, hstop, hothers⟩
      exact .object hms hx (Span.finish_eq_ok.mpr rfl)
    · exact .array hus (.cons hstart (.cons hstop .nil)) (Span.finish_eq_ok.mpr rfl)

theorem reads_span : Reads Span.read SpanText :=
  (Span.record_slots.reads (List.cons_ne_nil _ _)).congr Span.denotes_iff

end Spans

section Tokens

def Token.slots : List (Slot Token.Parts) :=
  [⟨Kind, "type", Kind.read, Token.Parts.kind, fun x k => { x with kind := some k }, KindText,
      reads_kind⟩,
    ⟨String, "value", string, Token.Parts.text, fun x v => { x with text := some v }, StringText,
      reads_string⟩,
    ⟨Span, "range", Span.read, Token.Parts.span, fun x s => { x with span := some s }, SpanText,
      reads_span⟩]

theorem Token.record_slots : Token.record.Slots Token.slots where
  fields := rfl
  nodup := by decide
  get_set := by simp [Token.slots]
  frame := by simp [Token.slots]
  empty := by simp [Token.slots, Token.record]
  ext := by
    rintro ⟨_, _, _⟩ ⟨_, _, _⟩
    simp [Token.slots]

theorem Token.finish_eq_ok {x : Token.Parts} {t : Token} :
    Token.record.finish x = .ok t ↔ x = ⟨some t.kind, some t.text, some t.span⟩ := by
  obtain ⟨_ | kind, _ | text, _ | span⟩ := x <;> obtain ⟨kind', text', span'⟩ := t <;>
    simp [Token.record]

theorem Token.through_iff {ms : List Member} {t : Token} :
    Through (Takes Token.slots) ms Token.record.empty ⟨some t.kind, some t.text, some t.span⟩ ↔
      Once "type" ms (KindText t.kind) ∧ Once "value" ms (StringText t.text) ∧
        Once "range" ms (SpanText t.span) ∧
        ∀ m ∈ ms, m.key ∉ ["type", "value", "range"] → Value m.value := by
  rw [Token.record_slots.through_empty_iff (by simp [Token.slots])]
  simp [Token.slots, and_assoc, eq_comm]

theorem Token.denotes_iff (t : Token) (u : List Char) :
    Token.record.Denotes Token.slots t u ↔ TokenText t u := by
  constructor
  · rintro (⟨hms, hx, ht⟩ | ⟨hus, hx, ht⟩)
    · obtain rfl := Token.finish_eq_ok.mp ht
      obtain ⟨hkind, htext, hspan, hothers⟩ := Token.through_iff.mp hx
      exact .object hms hkind htext hspan hothers
    · obtain rfl := Token.finish_eq_ok.mp ht
      cases hx with
      | cons hkind hx =>
        cases hx with
        | cons htext hx =>
          cases hx with
          | cons hspan hx =>
            cases hx
            exact .array hus hkind htext hspan
  · rintro (⟨hms, hkind, htext, hspan, hothers⟩ | ⟨hus, hkind, htext, hspan⟩)
    · have hx := Token.through_iff.mpr ⟨hkind, htext, hspan, hothers⟩
      exact .object hms hx (Token.finish_eq_ok.mpr rfl)
    · exact .array hus (.cons hkind (.cons htext (.cons hspan .nil))) (Token.finish_eq_ok.mpr rfl)

theorem reads_token : Reads Token.read TokenText :=
  (Token.record_slots.reads (List.cons_ne_nil _ _)).congr Token.denotes_iff

/-- The texts that denote a list of tokens. -/
def TokensText : List Token → List Char → Prop := Document (Enclosed '[' ']' TokenText)

end Tokens

/-- A text is read as a list of tokens exactly if the grammar says that it denotes them. A text that
denotes none is malformed. -/
theorem Token.listOfJson_grammar (text : String) :
    (∀ ts, Token.listOfJson text = .ok ts ↔ TokensText ts text.toList) ∧
      ((∃ ts, TokensText ts text.toList) ∨ ∃ e, Token.listOfJson text = .error (.malformed e)) := by
  have hreads := reads_array reads_token
  exact ⟨fun ts => hreads.ofParse_eq_ok_iff, hreads.document_or_malformed text⟩

end Coalesce
