import Coalesce.Proofs.Stream.History

namespace Coalesce

namespace Stream

/-- Nobody reads, the writer has no run open, and `n` places are left in the buffer. -/
structure Filling (n : Nat) (s : Stream) : Prop where
  writer : ∃ w, s.writing = .idle w ∧ w.merger = {} ∧ (0 < n → w.outbox = {})
  listening : s.channel.listening = true
  room : s.channel.room = n

namespace Writer

variable {w : Writer} {t : Token} {c : Channel}

theorem outbox_accept (hm : w.merger = {}) (hk : t.kind = .interpolation) :
    (w.accept t).outbox = ⟨none, some t⟩ ∧ (w.accept t).merger = {} := by
  rw [accept, hm, Merger.push_interpolation _ hk]
  exact ⟨rfl, rfl⟩

theorem write_of_room (hm : w.merger = {}) (ho : w.outbox = {}) (hk : t.kind = .interpolation)
    (hl : c.listening = true) (hr : 0 < c.room) :
    ∃ w', w'.merger = {} ∧ w'.outbox = {} ∧
      w.write t c = .succeeded (.idle w') (c.extend [.token t]) := by
  have hz : w.outbox.length = 0 := by rw [ho]; rfl
  have hu : (w.unload c.room).outbox = {} := outbox_unload_of_le (by omega)
  obtain ⟨ha, hm'⟩ := outbox_accept (w := w.unload c.room) hm hk
  have hone : ((w.unload c.room).accept t).outbox.length ≤ c.room := by
    rw [ha]
    exact hr
  refine ⟨((w.unload c.room).accept t).unload c.room, hm', outbox_unload_of_le hone, ?_⟩
  rw [write_of_listening w t hl, if_pos (by omega), ho]
  rw [Emitted.toList_empty, List.map_nil, Channel.extend_nil, settle_of_listening _ hl,
    if_pos hone, ha]
  rfl

theorem write_of_full (hm : w.merger = {}) (hk : t.kind = .interpolation)
    (hl : c.listening = true) (hr : c.room = 0) :
    ∃ w' call, call.writes = true ∧ w'.merger = {} ∧ w.write t c = .suspended w' call c := by
  obtain ⟨ha, hm'⟩ := outbox_accept (w := w.unload c.room) hm hk
  rw [write_of_listening w t hl]
  by_cases ho : w.outbox.length ≤ c.room
  · have hz : w.outbox.toList = [] := by
      rw [← List.length_eq_zero_iff, Emitted.length_toList]
      omega
    have hone : ¬ ((w.unload c.room).accept t).outbox.length ≤ c.room := by
      rw [ha, hr]
      exact Nat.not_succ_le_zero 0
    refine ⟨((w.unload c.room).accept t).unload c.room, .settle, rfl, hm', ?_⟩
    rw [if_pos ho, hz, List.map_nil, Channel.extend_nil, settle_of_listening _ hl, if_neg hone]
    simp only [hr, List.take_zero, List.map_nil, Channel.extend_nil]
  · rw [if_neg ho, hr, List.take_zero, List.map_nil, Channel.extend_nil]
    exact ⟨_, .write t, rfl, hm, rfl⟩

end Writer

namespace Filling

variable {n : Nat} {s : Stream} {t : Token}

theorem write (h : Filling n s) (hk : t.kind = .interpolation) :
    (s.step (.write t)).answer = (if 0 < n then .ok else .pending) ∧
      Filling (n - 1) (s.step (.write t)).stream := by
  obtain ⟨⟨w, hw, hm, ho⟩, hl, rfl⟩ := h
  rw [step, withWriter, hw]
  by_cases hr : 0 < s.channel.room
  · obtain ⟨w', hm', ho', he⟩ := Writer.write_of_room hm (ho hr) hk hl hr
    simp only [he, if_pos hr]
    exact ⟨rfl, ⟨w', rfl, hm', fun _ => ho'⟩, hl, Channel.room_extend _ _⟩
  · have hz : s.channel.room = 0 := by omega
    obtain ⟨w', call, hc, hm', he⟩ := Writer.write_of_full hm hk hl hz
    simp only [he, if_neg hr]
    refine ⟨rfl, ⟨w', ?_, hm', by omega⟩, hl, hz.trans (by omega)⟩
    cases call <;> first | rfl | contradiction

theorem run_writes (h : Filling n s) {ts : List Token}
    (hk : ∀ t ∈ ts, t.kind = .interpolation) :
    (s.run (ts.map .write)).map (·.answer) =
      List.replicate (min n ts.length) .ok ++ List.replicate (ts.length - n) .pending := by
  induction ts generalizing n s with
  | nil => simp [run]
  | cons t ts ih =>
    obtain ⟨ht, hk⟩ := List.forall_mem_cons.1 hk
    obtain ⟨ha, hf⟩ := h.write ht
    rw [List.map_cons, run, List.map_cons, ha, ih hf hk]
    cases n with
    | zero => simp [List.replicate_succ]
    | succ n => simp [List.replicate_succ, Nat.add_min_add_right]

end Filling

/-- A stream in which nothing has happened, and whose buffer takes `n` frames while nobody reads. -/
structure Fresh (n : Nat) (s : Stream) : Prop where
  writing : s.writing = .idle {}
  reading : s.reading = .idle {}
  channel : s.channel = { capacity := n }
  holds : ∀ ts : List Token, (∀ t ∈ ts, t.kind = .interpolation) →
    (s.run (ts.map .write)).map (·.answer) =
      List.replicate (min n ts.length) .ok ++ List.replicate (ts.length - n) .pending

theorem fresh_start (n : Nat) : Fresh n { channel := { capacity := n } } where
  writing := rfl
  reading := rfl
  channel := rfl
  holds ts hk := by
    have hf : Filling n { channel := { capacity := n } } := ⟨⟨{}, rfl, rfl, fun _ => rfl⟩, rfl, rfl⟩
    exact hf.run_writes hk

/-- What comes of making a stream with a buffer for `n` frames. -/
inductive Opened (n : Nat) : Except OpenError Stream → Prop where
  | invalid (h : n = 0) : Opened n (.error (.config .zeroCapacity))
  | made {s : Stream} (h : 0 < n) (hm : n ≤ maxCapacity) (hs : s.Fresh n) : Opened n (.ok s)
  | tooLarge (h : maxCapacity < n) : Opened n (.error .tooLarge)

theorem opened_withCapacity {n : UInt64} (h : 0 < n.toNat) : Opened n.toNat (withCapacity n) := by
  rw [withCapacity, Nat.max_eq_left h]
  by_cases hm : n.toNat ≤ maxCapacity
  · rw [if_pos hm]
    exact .made h hm (fresh_start n.toNat)
  · rw [if_neg hm]
    exact .tooLarge (Nat.lt_of_not_le hm)

end Stream

theorem Config.validate_cases (c : Config) :
    c.stream.bufferCapacity.toNat = 0 ∧ c.validate = .error .zeroCapacity ∨
      0 < c.stream.bufferCapacity.toNat ∧ c.validate = .ok () := by
  rw [validate]
  by_cases hz : c.stream.bufferCapacity = 0
  · exact .inl ⟨by rw [hz]; rfl, if_pos hz⟩
  · have hn : c.stream.bufferCapacity.toNat ≠ 0 := fun h => hz (UInt64.toNat_inj.1 h)
    exact .inr ⟨Nat.pos_of_ne_zero hn, if_neg hz⟩

theorem Config.validate_of_ofJson {text : String} {c : Config} (h : ofJson text = .ok c) :
    c.validate = .ok () := by
  rw [ofJson] at h
  cases hp : parse text with
  | error e => simp [hp, bind, Except.bind] at h
  | ok c' =>
    rcases c'.validate_cases with ⟨-, hv⟩ | ⟨-, hv⟩
    · simp [hp, hv, bind, Except.bind] at h
    · simp only [hp, hv, bind, Except.bind, pure, Except.pure, Except.ok.injEq] at h
      exact h ▸ hv

namespace Stream

theorem opened_withConfig (c : Config) :
    Opened c.stream.bufferCapacity.toNat (withConfig c) := by
  rcases c.validate_cases with ⟨hz, hv⟩ | ⟨hn, hv⟩
  · rw [withConfig, hv]
    exact .invalid hz
  · rw [withConfig, hv]
    exact opened_withCapacity hn

/-- Every configuration that is valid makes a stream for as many frames as it says, unless no channel
holds so many. -/
theorem opening (c : Config) (n : UInt64) (text : String) :
    Opened n.toNat (withConfig (c.withBufferCapacity n)) ∧
    match Config.ofJson text with
    | .ok c => c.validate = .ok () ∧ Opened c.stream.bufferCapacity.toNat (withText text)
    | .error e => withText text = .error (.config e) := by
  refine ⟨opened_withConfig (c.withBufferCapacity n), ?_⟩
  cases ht : Config.ofJson text with
  | ok c =>
    refine ⟨Config.validate_of_ofJson ht, ?_⟩
    delta withText
    rw [ht]
    exact opened_withConfig c
  | error e =>
    delta withText
    rw [ht]

/-- One frame more than any channel holds: the configuration is valid, and there is no stream. -/
theorem opening_oversized :
    Config.ofJson "[[2305843009213693952]]" = .ok ⟨⟨2305843009213693952⟩⟩ ∧
      Config.validate ⟨⟨2305843009213693952⟩⟩ = .ok () ∧
      withText "[[2305843009213693952]]" = .error .tooLarge := by
  have ht : Config.ofJson "[[2305843009213693952]]" = .ok ⟨⟨2305843009213693952⟩⟩ := by rfl
  obtain ⟨-, h⟩ := opening {} 0 "[[2305843009213693952]]"
  simp only [ht] at h
  obtain ⟨hv, ho⟩ := h
  refine ⟨ht, hv, ?_⟩
  generalize withText "[[2305843009213693952]]" = r at ho ⊢
  cases ho with
  | invalid h => contradiction
  | made h hm hs => exact absurd hm (by decide)
  | tooLarge h => rfl

end Stream

end Coalesce
