import Coalesce.Proofs.Config.Grammar
import Coalesce.Proofs.Stream.Opening

namespace Coalesce

open Json Json.Reader

namespace Config

/-- All that can come of reading a configuration from the text `s`. -/
inductive Outcome (s : List Char) : Except Error Config → Prop
  | accepted {c : Config} (hd : Document ConfigText c s) (hc : 1 ≤ c.stream.bufferCapacity) :
      Outcome s (.ok c)
  | invalid {c : Config} (hd : Document ConfigText c s) (hc : c.stream.bufferCapacity = 0) :
      Outcome s (.error .zeroCapacity)
  | malformed (e : Json.Error) (hn : ∀ c, ¬ Document ConfigText c s) :
      Outcome s (.error (.malformed e))

theorem ofJson_of_parse {text : String} {c : Config} (h : parse text = .ok c) :
    ofJson text = c.validate.map fun _ => c := by
  rw [ofJson, h]
  cases hv : c.validate <;> simp [bind, Except.bind, pure, Except.pure, Except.map, hv]

theorem ofJson_of_parse_error {text : String} {e : Error} (h : parse text = .error e) :
    ofJson text = .error e := by
  rw [ofJson, h]
  rfl

theorem document_unique {text : String} {c c' : Config} (h : Document ConfigText c text.toList)
    (h' : Document ConfigText c' text.toList) : c = c' := by
  rw [← parse_eq_ok_iff] at h h'
  rw [h] at h'
  exact Except.ok.inj h'

theorem outcome_ofJson (text : String) : Outcome text.toList (ofJson text) := by
  rcases reads_config.document_or_malformed text with ⟨c, hd⟩ | ⟨e, he⟩
  · rw [ofJson_of_parse (parse_eq_ok_iff.2 hd)]
    rcases c.validate_cases with ⟨hz, hv⟩ | ⟨hn, hv⟩
    · rw [hv]
      exact .invalid hd (UInt64.toNat_inj.1 hz)
    · rw [hv]
      exact .accepted hd (UInt64.le_iff_toNat_le.2 hn)
  · have hp : parse text = .error (.malformed e) := he
    rw [ofJson_of_parse_error hp]
    apply Outcome.malformed
    intro c hd
    rw [← parse_eq_ok_iff, hp] at hd
    contradiction

variable {text : String}

theorem ofJson_eq_ok_iff {c : Config} : ofJson text = .ok c ↔
    1 ≤ c.stream.bufferCapacity ∧ Document ConfigText c text.toList := by
  have ho := outcome_ofJson text
  generalize ofJson text = r at ho ⊢
  constructor
  · rintro rfl
    cases ho with
    | accepted hd hc => exact ⟨hc, hd⟩
  · rintro ⟨hc, hd⟩
    cases ho with
    | accepted hd' => rw [document_unique hd hd']
    | invalid hd' hz =>
      rw [document_unique hd hd', hz] at hc
      contradiction
    | malformed e hn => exact absurd hd (hn c)

theorem ofJson_eq_zeroCapacity_iff :
    ofJson text = .error .zeroCapacity ↔ Document ConfigText ⟨⟨0⟩⟩ text.toList := by
  have ho := outcome_ofJson text
  generalize ofJson text = r at ho ⊢
  constructor
  · rintro rfl
    cases ho with
    | invalid hd hz => rwa [← hz]
  · intro hd
    cases ho with
    | accepted hd' hc =>
      rw [← document_unique hd hd'] at hc
      contradiction
    | invalid => rfl
    | malformed e hn => exact absurd hd (hn _)

theorem ofJson_malformed_iff : (∃ e, ofJson text = .error (.malformed e)) ↔
    ∀ c, ¬ Document ConfigText c text.toList := by
  have ho := outcome_ofJson text
  generalize ofJson text = r at ho ⊢
  constructor
  · rintro ⟨e, rfl⟩
    cases ho with
    | malformed e hn => exact hn
  · intro hn
    cases ho with
    | accepted hd => exact absurd hd (hn _)
    | invalid hd => exact absurd hd (hn _)
    | malformed e => exact ⟨e, rfl⟩

theorem withConfig_ne_config {c : Config} (hc : 1 ≤ c.stream.bufferCapacity) (e : Error) :
    Stream.withConfig c ≠ .error (.config e) := by
  have ho := Stream.opened_withConfig c
  intro h
  rw [h] at ho
  cases ho with
  | invalid hz =>
    rw [UInt64.le_iff_toNat_le, hz] at hc
    contradiction

/-- A configuration is accepted exactly if the text denotes it and its capacity is not zero. A text
that denotes one of capacity zero is told apart from the texts that denote none, and what has been
accepted is refused no more. -/
theorem acceptance (text : String) :
    (∀ n, ofJson text = .ok ⟨⟨n⟩⟩ ↔ 1 ≤ n ∧ Document ConfigText ⟨⟨n⟩⟩ text.toList) ∧
    (ofJson text = .error .zeroCapacity ↔ Document ConfigText ⟨⟨0⟩⟩ text.toList) ∧
    ((∃ e, ofJson text = .error (.malformed e)) ↔ ∀ c, ¬ Document ConfigText c text.toList) ∧
    ∀ c, ofJson text = .ok c →
      c.validate = .ok () ∧ ∀ e, Stream.withConfig c ≠ .error (.config e) := by
  refine ⟨fun n => ofJson_eq_ok_iff, ofJson_eq_zeroCapacity_iff, ofJson_malformed_iff, ?_⟩
  intro c hc
  exact ⟨validate_of_ofJson hc, withConfig_ne_config (ofJson_eq_ok_iff.1 hc).1⟩

/-- An array in place of the outer object, and a member that is passed over, though its value is no
text. -/
theorem acceptance_lenient :
    let text := "[\x7b\"size\": \"\\ud800\", \"buffer_capacity\": 7\x7d]"
    ofJson text = .ok ⟨⟨7⟩⟩ ∧ Document ConfigText ⟨⟨7⟩⟩ text.toList ∧
      validate ⟨⟨7⟩⟩ = .ok () ∧ ∀ e, Stream.withConfig ⟨⟨7⟩⟩ ≠ .error (.config e) := by
  intro text
  have ht : ofJson text = .ok ⟨⟨7⟩⟩ := by decide +kernel
  obtain ⟨hok, -, -, hvalid⟩ := acceptance text
  exact ⟨ht, ((hok 7).1 ht).2, hvalid _ ht⟩

end Config

end Coalesce
