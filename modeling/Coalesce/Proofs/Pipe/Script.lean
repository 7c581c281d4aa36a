import Coalesce.Proofs.Stream.Ending

namespace Coalesce

open Coalesce.Stream

/-- What becomes of the open run when the writing ends. -/
def Ending.kept (m : Merger) : Ending → List Token
  | close => m.held
  | _ => []

theorem Ending.length_marks_le (e : Ending) : e.marks.length ≤ 1 := by
  cases e <;> simp [marks]

namespace Stream

/-- The tokens that a writer still sends if it is given `ts` and then ends by `e`. -/
def Writer.due (w : Writer) (ts : List Token) (e : Ending) : List Token :=
  w.outbox.toList ++ (w.merger.feed ts).1 ++ e.kept (w.merger.feed ts).2

def Writer.script (w : Writer) (ts : List Token) (e : Ending) : List Frame :=
  (w.due ts e).map .token ++ e.marks

/-- The frames still to be sent, where `ts` has not been begun yet. -/
def Writing.script (ts : List Token) (e : Ending) : Writing → List Frame
  | idle w | busy w .settle => w.script ts e
  | busy w (.write t) => w.script (t :: ts) e
  | busy w .close | busy w (.abort _) => w.script [] e
  | gone => []

/-- A script that is broken off is broken off among its tokens. -/
theorem split_script {D : List Token} {e : Ending} {n : Nat}
    (h : n < (D.map Frame.token ++ e.marks).length) :
    n ≤ D.length ∧ (D.map Frame.token ++ e.marks).take n = (D.take n).map .token ∧
      (D.map Frame.token ++ e.marks).drop n = (D.drop n).map .token ++ e.marks := by
  have hm := e.length_marks_le
  rw [List.length_append, List.length_map] at h
  have hD : n ≤ D.length := by omega
  have hn : n ≤ (D.map Frame.token).length := by rwa [List.length_map]
  refine ⟨hD, ?_, ?_⟩
  · rw [List.take_append_of_le_length hn, List.map_take]
  · rw [List.drop_append_of_le_length hn, List.map_drop]

/-- The writer stands where writing `ts` and then ending by `e` can go on. -/
def Writing.Fits (ts : List Token) (e : Ending) : Writing → Prop
  | idle w => w.outbox = {}
  | busy _ (.write _) | busy _ .settle => True
  | busy _ .close => ts = [] ∧ e = .close
  | busy _ (.abort r) => ts = [] ∧ e = .abort r
  | gone => False

/-- A turn that puts the first frames of `D` into the channel, as many as there is room for. One
of a write that has sent all it can send gives the writer back. -/
inductive Turn.Sends (writes : Bool) (ts : List Token) (e : Ending) (D : List Frame) (c : Channel)
    (t : Turn) : Prop where
  | onward (w : Writer) (fs : List Frame) (hb : writes = true) (ho : t.outcome = some (.ok ()))
      (hw : t.writing = .idle w) (hc : t.channel = c.extend fs) (hf : w.outbox = {})
      (hr : fs.length ≤ c.room) (hD : D = fs ++ w.script ts e)
  | last (hb : writes = false) (ho : t.outcome = some (.ok ())) (hw : t.writing = .gone)
      (hc : t.channel = c.extend D) (hr : D.length ≤ c.room)
  | stalled (w : Writer) (call : Call) (hb : call.writes = writes) (ho : t.outcome = none)
      (hw : t.writing = .busy w call) (hc : t.channel = c.extend (D.take c.room))
      (hf : t.writing.Fits ts e) (hr : c.room < D.length)
      (hD : t.writing.script ts e = D.drop c.room)

namespace Turn.Sends

variable {writes : Bool} {ts : List Token} {e : Ending} {D : List Frame} {c : Channel} {t : Turn}

theorem after (h : t.Sends writes ts e D c) (es : List Event) :
    (t.after es).Sends writes ts e D c := by
  cases h with
  | onward w fs hb ho hw hc hf hr hD => exact .onward w fs hb ho hw hc hf hr hD
  | last hb ho hw hc hr => exact .last hb ho hw hc hr
  | stalled w call hb ho hw hc hf hr hD => exact .stalled w call hb ho hw hc hf hr hD

theorem behind {fs : List Frame} (h : t.Sends writes ts e D (c.extend fs))
    (hr : fs.length ≤ c.room) : t.Sends writes ts e (fs ++ D) c := by
  cases h with
  | onward w gs hb ho hw hc hf hr' hD =>
    refine .onward w (fs ++ gs) hb ho hw (by rw [hc, Channel.extend_extend]) hf ?_ ?_
    · rw [Channel.room_extend] at hr'
      rw [List.length_append]
      omega
    · rw [hD, List.append_assoc]
  | last hb ho hw hc hr' =>
    refine .last hb ho hw (by rw [hc, Channel.extend_extend]) ?_
    rw [Channel.room_extend] at hr'
    rw [List.length_append]
    omega
  | stalled w call hb ho hw hc hf hr' hD =>
    rw [Channel.room_extend] at hc hr' hD
    refine .stalled w call hb ho hw ?_ hf ?_ ?_
    · rw [hc, Channel.extend_extend, List.take_append, List.take_of_length_le hr]
    · rw [List.length_append]
      omega
    · rw [hD, List.drop_append, List.drop_of_length_le hr, List.nil_append]

end Turn.Sends

namespace Writer

variable {w : Writer} {ts : List Token} {e : Ending} {c : Channel}

theorem script_unload (h : w.outbox.length ≤ c.room) :
    w.script ts e = w.outbox.toList.map .token ++ (w.unload c.room).script ts e := by
  simp only [script, due, merger_unload, outbox_unload_of_le h, Emitted.toList_empty,
    List.map_append, List.append_assoc, List.nil_append]

theorem script_unload_of_lt (h : c.room < w.outbox.length) :
    (w.unload c.room).script ts e = (w.script ts e).drop c.room := by
  rw [← Emitted.length_toList] at h
  simp only [script, due, merger_unload, toList_outbox_unload, List.map_append, List.append_assoc]
  rw [List.drop_append_of_le_length (by rw [List.length_map]; omega), List.map_drop]

theorem take_script_of_lt (h : c.room < w.outbox.length) :
    (w.script ts e).take c.room = (w.outbox.toList.take c.room).map .token := by
  rw [← Emitted.length_toList] at h
  simp only [script, due, List.map_append, List.append_assoc]
  rw [List.take_append_of_le_length (by rw [List.length_map]; omega), List.map_take]

theorem exists_script (call : Call) (ts : List Token) (e : Ending) :
    ∃ us, ∀ w : Writer, (Writing.busy w call).script ts e = w.script us e := by
  cases call with
  | write t => exact ⟨t :: ts, fun _ => rfl⟩
  | settle => exact ⟨ts, fun _ => rfl⟩
  | close => exact ⟨[], fun _ => rfl⟩
  | abort r => exact ⟨[], fun _ => rfl⟩

theorem sends_drained (call : Call) {left : Writer → Writing} {next : Writer → Channel → Turn}
    (hl : c.listening = true) (hf : (Writing.busy w call).Fits ts e)
    (hn : ∀ {w' c'}, c'.listening = true → w'.outbox = {} → w'.merger = w.merger →
      (next w' c').Sends call.writes ts e ((Writing.busy w' call).script ts e) c') :
    (w.drained c call left next).Sends call.writes ts e ((Writing.busy w call).script ts e) c := by
  -- All that the script of a call says of its writer is what a drain takes from its front.
  obtain ⟨us, hs⟩ := exists_script call ts e
  rw [w.drained_of_listening hl, hs]
  by_cases ho : w.outbox.length ≤ c.room
  · rw [if_pos ho, script_unload ho, ← hs]
    apply Turn.Sends.behind
    · exact hn hl (outbox_unload_of_le ho) rfl
    · rwa [List.length_map, Emitted.length_toList]
  · rw [if_neg ho]
    have hlt : c.room < w.outbox.length := Nat.lt_of_not_le ho
    refine .stalled (w.unload c.room) call rfl rfl rfl ?_ ?_ ?_ ?_
    · rw [take_script_of_lt hlt]
      rfl
    · cases call <;> exact hf
    · rw [script, due]
      simp only [List.map_append, List.length_append, List.length_map, Emitted.length_toList]
      omega
    · rw [← script_unload_of_lt hlt]
      exact hs _

theorem sends_settle (hl : c.listening = true) :
    (w.settle c).Sends true ts e (w.script ts e) c := by
  apply sends_drained .settle hl trivial
  intro w' c' _ ho _
  exact .onward w' [] rfl rfl rfl (Channel.extend_nil c').symm ho (Nat.zero_le _) rfl

theorem script_accept (ho : w.outbox = {}) (t : Token) :
    (w.accept t).script ts e = w.script (t :: ts) e := by
  simp only [script, due, accept, Merger.feed, ho, Emitted.toList_empty, List.nil_append]

theorem sends_write (hl : c.listening = true) (t : Token) :
    (w.write t c).Sends true ts e (w.script (t :: ts) e) c := by
  apply sends_drained (.write t) hl trivial
  intro w' c' hl' ho _
  have h : ((w'.accept t).settle c').Sends true ts e ((w'.accept t).script ts e) c' :=
    sends_settle hl'
  rwa [script_accept ho] at h

theorem sends_mark {f : Frame} {call : Call} {log : List Event} (hl : c.listening = true)
    (hb : call.writes = false) (hf : (Writing.busy w call).Fits ts e)
    (hs : (Writing.busy w call).script ts e = [f]) :
    (w.mark f call log c).Sends false ts e [f] c := by
  rcases w.mark_cases f call log c with ⟨-, hr, hm⟩ | ⟨-, hr, hm⟩ | ⟨hd, hm⟩ <;> rw [hm]
  · exact .last rfl rfl rfl rfl hr
  · refine .stalled w call hb rfl rfl ?_ hf ?_ ?_
    · rw [hr, List.take_zero, Channel.extend_nil]
      rfl
    · rw [hr]
      exact Nat.one_pos
    · rw [hr, List.drop_zero]
      exact hs
  · rw [hl] at hd
    contradiction

/-- The open run is due before the flush as the merger's, after it as the outbox's. -/
theorem script_flush (ho : w.outbox = {}) : w.flush.1.script [] .close = w.script [] .close := by
  simp [script, due, Merger.feed, Ending.kept, outbox_flush ho, ho]

theorem sends_close (hl : c.listening = true) :
    (w.close c).Sends false [] .close (w.script [] .close) c := by
  apply sends_drained .close hl ⟨rfl, rfl⟩
  intro w₁ c₁ hl₁ ho₁ _
  apply Turn.Sends.after
  have h : (Writing.busy w₁ .close).script [] .close = w₁.flush.1.script [] .close :=
    (script_flush ho₁).symm
  rw [h]
  -- The second drain sends what the flush has put into the outbox.
  apply sends_drained .close hl₁ ⟨rfl, rfl⟩
  intro w₂ c₂ hl₂ ho₂ hm₂
  rw [merger_flush] at hm₂
  have hs : (Writing.busy w₂ .close).script [] .close = [.closed] := by
    simp [Writing.script, script, due, ho₂, hm₂, Merger.feed, Ending.kept, Ending.marks]
  rw [hs]
  exact sends_mark hl₂ rfl ⟨rfl, rfl⟩ hs

theorem sends_abortOn (hl : c.listening = true) (r : Reason) :
    (w.abortOn r c).Sends false [] (.abort r) (w.script [] (.abort r)) c := by
  apply sends_drained (.abort r) hl ⟨rfl, rfl⟩
  intro w' c' hl' ho _
  have hs : (Writing.busy w' (.abort r)).script [] (.abort r) = [.aborted r] := by
    simp [Writing.script, script, due, ho, Merger.feed, Ending.kept, Ending.marks]
  rw [hs]
  exact sends_mark hl' rfl ⟨rfl, rfl⟩ hs

theorem sends_abort (hl : c.listening = true) (r : Reason) :
    (w.abort r c).Sends false [] (.abort r) (w.script [] (.abort r)) c :=
  (sends_abortOn (w := { w with merger := w.merger.discard.2 }) hl r).after _

theorem sends_poll {call : Call} (hl : c.listening = true) (hf : (Writing.busy w call).Fits ts e) :
    (w.poll c call).Sends call.writes ts e ((Writing.busy w call).script ts e) c := by
  cases call with
  | write t => exact sends_write hl t
  | settle => exact sends_settle hl
  | close =>
    obtain ⟨rfl, rfl⟩ := hf
    exact sends_close hl
  | abort r =>
    obtain ⟨rfl, rfl⟩ := hf
    exact sends_abortOn hl r

end Writer

end Stream

end Coalesce
