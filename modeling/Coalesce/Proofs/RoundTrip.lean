import Coalesce.Compress.Json
import Coalesce.Proofs.Compress.Normal
import Coalesce.Proofs.Config.Grammar
import Coalesce.Proofs.Json.Written
import Coalesce.Proofs.Token.Grammar

namespace Coalesce

open Json Json.Reader

section Written

theorem kindText_write (k : Kind) : KindText k (writeText k.jsonName) := by
  cases k with
  | literal => exact .literal (.inl (stringText_writeText _))
  | interpolation => exact .interpolation (.inl (stringText_writeText _))

theorem spanText_write (s : Span) : SpanText s s.write := by
  refine .object
    (isObject_writeObject [⟨"start", writeWord s.start⟩, ⟨"end", writeWord s.stop⟩]) ?_ ?_ ?_
  · exact ⟨writeWord s.start, by simp [valuesOf], wordText_writeWord s.start⟩
  · exact ⟨writeWord s.stop, by simp [valuesOf], wordText_writeWord s.stop⟩
  · simp

theorem tokenText_write (t : Token) : TokenText t t.write := by
  refine .object (isObject_writeObject [⟨"type", writeText t.kind.jsonName⟩,
    ⟨"value", writeText t.text⟩, ⟨"range", t.span.write⟩]) ?_ ?_ ?_ ?_
  · exact ⟨writeText t.kind.jsonName, by simp [valuesOf], kindText_write t.kind⟩
  · exact ⟨writeText t.text, by simp [valuesOf], stringText_writeText t.text⟩
  · exact ⟨t.span.write, by simp [valuesOf], spanText_write t.span⟩
  · simp

theorem streamConfigText_write (c : StreamConfig) : StreamConfigText c c.write :=
  .object (isObject_writeObject [⟨"buffer_capacity", writeWord c.bufferCapacity⟩])
    (.given (wordText_writeWord c.bufferCapacity)) (by simp)

theorem configText_write (c : Config) : ConfigText c c.write :=
  .object (isObject_writeObject [⟨"stream", c.stream.write⟩])
    (.given (streamConfigText_write c.stream)) (by simp)

end Written

/-- What is written without blanks is a document. -/
theorem document_ofList {α : Type} {G : α → List Char → Prop} {a : α} {u : List Char} (h : G a u) :
    Document G a (String.ofList u).toList :=
  ⟨[], u, [], .nil, .nil, h, by simp⟩

theorem Token.listOfJson_listToJson (ts : List Token) :
    Token.listOfJson (Token.listToJson ts) = .ok ts :=
  (reads_array reads_token).ofParse_eq_ok_iff.mpr
    (document_ofList (enclosed_intercalate '[' ']' fun t _ => tokenText_write t))

theorem Config.parse_toJson (c : Config) : Config.parse c.toJson = .ok c :=
  Config.parse_eq_ok_iff.mpr (document_ofList (configText_write c))

theorem Config.ofJson_toJson (c : Config) : Config.ofJson c.toJson =
    if c.stream.bufferCapacity = 0 then .error .zeroCapacity else .ok c := by
  unfold Config.ofJson Config.validate
  rw [Config.parse_toJson]
  by_cases hc : c.stream.bufferCapacity = 0
  · simp [bind, Except.bind, hc]
  · simp [bind, Except.bind, pure, Except.pure, hc]

/-- A text that compression gives is one of tokens that nothing can be done to any more. -/
theorem compressJson_compressJson (text : String) :
    (compressJson text >>= compressJson) = compressJson text := by
  have hok {text : String} {ts : List Token} (h : Token.listOfJson text = .ok ts) :
      compressJson text = .ok (Token.listToJson (compress ts)) := by
    rw [compressJson, h]
    rfl
  cases h : Token.listOfJson text with
  | error e =>
    rw [compressJson, h]
    rfl
  | ok ts =>
    have hagain := hok (Token.listOfJson_listToJson (compress ts))
    rw [compress_compress] at hagain
    rw [hok h]
    exact hagain

/-- What is written is read back. -/
theorem json_roundTrip :
    (∀ k : Kind, Kind.ofJson k.toJson = .ok k) ∧
    (∀ s : Span, Span.ofJson s.toJson = .ok s) ∧
    (∀ t : Token, Token.ofJson t.toJson = .ok t) ∧
    (∀ ts : List Token, Token.listOfJson (Token.listToJson ts) = .ok ts) ∧
    (∀ c : Config, Config.parse c.toJson = .ok c ∧ Config.ofJson c.toJson =
      if c.stream.bufferCapacity = 0 then .error .zeroCapacity else .ok c) ∧
    ∀ text : String, (compressJson text >>= compressJson) = compressJson text := by
  refine ⟨fun k => ?_, fun s => ?_, fun t => ?_, Token.listOfJson_listToJson, fun c => ?_, ?_⟩
  · exact reads_kind.ofParse_eq_ok_iff.mpr (document_ofList (kindText_write k))
  · exact reads_span.ofParse_eq_ok_iff.mpr (document_ofList (spanText_write s))
  · exact reads_token.ofParse_eq_ok_iff.mpr (document_ofList (tokenText_write t))
  · exact ⟨c.parse_toJson, c.ofJson_toJson⟩
  · exact compressJson_compressJson

end Coalesce
