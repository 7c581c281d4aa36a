import Coalesce.Proofs.Emission
import Coalesce.Stream.Reader
import Coalesce.Stream.Writer

namespace Coalesce

theorem Emitted.eq_empty_of_length {e : Emitted} (h : e.length = 0) : e = {} := by
  rcases e with ⟨_ | _, _ | _⟩ <;> simp_all [length]

namespace Stream

def Call.writes : Call → Bool
  | write _ | settle => true
  | close | abort _ => false

def Frame.token? : Frame → Option Token
  | .token t => some t
  | _ => none

theorem Frame.token?_comp_token : Frame.token? ∘ Frame.token = some := rfl

namespace Channel

def tokens (c : Channel) : List Token := c.frames.filterMap Frame.token?

/-- Puts frames behind those in the buffer, whether there is room or not. -/
def extend (c : Channel) (fs : List Frame) : Channel := { c with frames := c.frames ++ fs }

@[simp] theorem frames_extend (c : Channel) (fs : List Frame) :
    (c.extend fs).frames = c.frames ++ fs := rfl

@[simp] theorem listening_extend (c : Channel) (fs : List Frame) :
    (c.extend fs).listening = c.listening := rfl

@[simp] theorem capacity_extend (c : Channel) (fs : List Frame) :
    (c.extend fs).capacity = c.capacity := rfl

@[simp] theorem extend_nil (c : Channel) : c.extend [] = c := by simp [extend]

@[simp] theorem extend_extend (c : Channel) (fs gs : List Frame) :
    (c.extend fs).extend gs = c.extend (fs ++ gs) := by simp [extend]

@[simp] theorem room_extend (c : Channel) (fs : List Frame) :
    (c.extend fs).room = c.room - fs.length := by simp [room]; omega

@[simp] theorem listening_mute (c : Channel) : c.mute.listening = false := rfl

@[simp] theorem tokens_extend (c : Channel) (ts : List Token) :
    (c.extend (ts.map .token)).tokens = c.tokens ++ ts := by
  rw [tokens, frames_extend, List.filterMap_append, List.filterMap_map, Frame.token?_comp_token,
    List.filterMap_some]
  rfl

theorem eq_marks_of_head {c : Channel} {f : Frame} {fs ms : List Frame} (hf : c.frames = f :: fs)
    (hn : f.token? = none) (hm : c.frames = c.tokens.map .token ++ ms) :
    c.tokens = [] ∧ ms = f :: fs := by
  cases ht : c.tokens with
  | nil => exact ⟨rfl, by simpa [ht, hf] using hm.symm⟩
  | cons t ts =>
    rw [ht, hf, List.map_cons, List.cons_append, List.cons.injEq] at hm
    rw [hm.1] at hn
    contradiction

theorem send_of_room {c : Channel} (hl : c.listening = true) (hr : 0 < c.room) (f : Frame) :
    c.send f = (.done, c.extend [f]) := by
  have : c.frames.length < c.capacity := by unfold room at hr; omega
  simp [send, hl, this, extend]

theorem send_of_full {c : Channel} (hl : c.listening = true) (hr : c.room = 0) (f : Frame) :
    c.send f = (.stalled, c) := by
  have : ¬ c.frames.length < c.capacity := by unfold room at hr; omega
  simp [send, hl, this]

theorem send_of_deaf {c : Channel} (hl : c.listening = false) (f : Frame) :
    c.send f = (.refused, c) := by
  simp [send, hl]

end Channel

namespace Writer

/-- The first `n` tokens have left the outbox. -/
def unload (w : Writer) (n : Nat) : Writer :=
  { w with outbox := (w.outbox.take n).2, emitted := w.emitted + min n w.outbox.length }

@[simp] theorem merger_unload (w : Writer) (n : Nat) : (w.unload n).merger = w.merger := rfl

@[simp] theorem toList_outbox_unload (w : Writer) (n : Nat) :
    (w.unload n).outbox.toList = w.outbox.toList.drop n := (Emitted.take_eq n w.outbox).2

theorem outbox_unload_of_le {w : Writer} {n : Nat} (h : w.outbox.length ≤ n) :
    (w.unload n).outbox = {} := by
  apply Emitted.eq_empty_of_length
  rw [← Emitted.length_toList, toList_outbox_unload, List.length_drop, Emitted.length_toList]
  omega

theorem unload_zero (w : Writer) : w.unload 0 = w := by simp [unload, Emitted.take]

theorem unload_of_next?_none {w : Writer} (h : w.outbox.next? = none) (n : Nat) :
    w.unload n = w := by
  have hlen : w.outbox.length = 0 := by
    rw [← Emitted.length_toList, (Emitted.next?_eq_none_iff _).1 h, List.length_nil]
  cases n <;> simp [unload, Emitted.take, h, hlen]

theorem unload_of_next?_some {w : Writer} {t : Token} {rest : Emitted}
    (h : w.outbox.next? = some (t, rest)) (n : Nat) :
    unload { w with outbox := rest, emitted := w.emitted + 1 } n = w.unload (n + 1) := by
  simp only [unload, Emitted.take, h, Emitted.length_of_next? h, Nat.add_min_add_right,
    Nat.add_assoc, Nat.add_comm 1]

/-- With a reader there, a drain moves as many tokens as there is room for. -/
theorem drain_of_listening (w : Writer) {c : Channel} (hl : c.listening = true) :
    w.drain c =
      (if w.outbox.length ≤ c.room then .done else .stalled, w.unload c.room,
        c.extend ((w.outbox.toList.take c.room).map .token)) := by
  -- A token that goes takes a place: the room left is that of the rest of the outbox.
  fun_induction drain w c with
  | case1 w c hn =>
    have hnil := (Emitted.next?_eq_none_iff _).1 hn
    have hlen : w.outbox.length = 0 := by rw [← Emitted.length_toList, hnil, List.length_nil]
    simp [hlen, unload_of_next?_none hn, hnil]
  | case2 w c t rest hn d hs ih =>
    have hr : 0 < c.room := by
      obtain ⟨-, hlt, -⟩ := (Channel.send_eq_done_iff c d (.token t)).1 hs
      unfold Channel.room
      omega
    obtain ⟨n, hn'⟩ : ∃ n, c.room = n + 1 := ⟨c.room - 1, by omega⟩
    obtain rfl : c.extend [.token t] = d := by
      rw [Channel.send_of_room hl hr] at hs
      exact (Prod.mk.inj hs).2
    rw [ih hl, Channel.room_extend, hn', unload_of_next?_some hn, Emitted.length_of_next? hn,
      Emitted.toList_of_next? hn]
    simp
  | case3 w c t rest hn p d hp hs =>
    have hr : c.room = 0 := by
      apply Nat.eq_zero_of_not_pos
      intro hr
      rw [Channel.send_of_room hl hr] at hs
      exact hp (Prod.mk.inj hs).1.symm
    rw [Channel.send_of_full hl hr] at hs
    obtain ⟨rfl, rfl⟩ := Prod.mk.inj hs
    simp [hr, Emitted.length_of_next? hn, unload_zero]

theorem drain_of_deaf (w : Writer) {c : Channel} (hl : c.listening = false) :
    w.drain c = (if w.outbox.length = 0 then .done else .refused, w, c) := by
  fun_induction drain w c with
  | case1 w c hn =>
    have hlen : w.outbox.length = 0 := by
      rw [← Emitted.length_toList, (Emitted.next?_eq_none_iff _).1 hn, List.length_nil]
    simp [hlen]
  | case2 w c t rest hn d hs ih => simp [Channel.send_of_deaf hl] at hs
  | case3 w c t rest hn p d hp hs =>
    rw [Channel.send_of_deaf hl] at hs
    obtain ⟨rfl, rfl⟩ := Prod.mk.inj hs
    simp [Emitted.length_of_next? hn]

theorem drained_of_listening (w : Writer) {c : Channel} (hl : c.listening = true) (call : Call)
    (left : Writer → Writing) (next : Writer → Channel → Turn) :
    w.drained c call left next =
      if w.outbox.length ≤ c.room then
        next (w.unload c.room) (c.extend (w.outbox.toList.map .token))
      else
        .suspended (w.unload c.room) call
          (c.extend ((w.outbox.toList.take c.room).map .token)) := by
  rw [drained, drain_of_listening w hl]
  by_cases ho : w.outbox.length ≤ c.room
  · have ht : w.outbox.toList.take c.room = w.outbox.toList := by
      apply List.take_of_length_le
      rwa [Emitted.length_toList]
    simp only [if_pos ho, ht]
  · simp only [if_neg ho]

theorem settle_of_listening (w : Writer) {c : Channel} (hl : c.listening = true) :
    w.settle c =
      if w.outbox.length ≤ c.room then
        .succeeded (.idle (w.unload c.room)) (c.extend (w.outbox.toList.map .token))
      else
        .suspended (w.unload c.room) .settle
          (c.extend ((w.outbox.toList.take c.room).map .token)) :=
  w.drained_of_listening hl .settle .idle fun w c => .succeeded (.idle w) c

theorem write_of_listening (w : Writer) (t : Token) {c : Channel} (hl : c.listening = true) :
    w.write t c =
      if w.outbox.length ≤ c.room then
        ((w.unload c.room).accept t).settle (c.extend (w.outbox.toList.map .token))
      else
        .suspended (w.unload c.room) (.write t)
          (c.extend ((w.outbox.toList.take c.room).map .token)) :=
  w.drained_of_listening hl (.write t) .idle fun w c => (w.accept t).settle c

/-- The tokens `ts` have moved from the outbox into the channel, and nothing else has changed. -/
structure Moved (w : Writer) (c : Channel) (ts : List Token) (w' : Writer) (c' : Channel) :
    Prop where
  outbox : w.outbox.toList = ts ++ w'.outbox.toList
  channel : c' = c.extend (ts.map .token)
  merger : w'.merger = w.merger
  written : w'.written = w.written
  emitted : w'.emitted = w.emitted + ts.length

theorem Moved.refl (w : Writer) (c : Channel) : Moved w c [] w c :=
  ⟨rfl, by simp, rfl, rfl, rfl⟩

theorem Moved.listening {w w' : Writer} {c c' : Channel} {ts : List Token}
    (h : Moved w c ts w' c') : c'.listening = c.listening := by
  rw [h.channel, Channel.listening_extend]

theorem moved_unload (w : Writer) (c : Channel) (n : Nat) :
    Moved w c (w.outbox.toList.take n) (w.unload n)
      (c.extend ((w.outbox.toList.take n).map .token)) where
  outbox := by simp
  channel := rfl
  merger := rfl
  written := rfl
  emitted := by simp [unload]

/-- All that a drain followed by `next` can come to. -/
theorem drained_cases (w : Writer) (c : Channel) (call : Call) (left : Writer → Writing)
    (next : Writer → Channel → Turn) :
    (∃ ts w' c', Moved w c ts w' c' ∧ (w.drain c).1 = .done ∧ w'.outbox = {} ∧
      w.drained c call left next = next w' c') ∨
    (∃ ts w' c', Moved w c ts w' c' ∧ (w.drain c).1 = .stalled ∧ c.listening = true ∧
      w.drained c call left next = .suspended w' call c') ∨
    ((w.drain c).1 = .refused ∧ c.listening = false ∧
      w.drained c call left next = .refused (left w) c) := by
  unfold drained
  cases hl : c.listening with
  | true =>
    rw [w.drain_of_listening hl]
    by_cases ho : w.outbox.length ≤ c.room
    · have hm := w.moved_unload c c.room
      exact .inl ⟨_, _, _, hm, by simp [ho], outbox_unload_of_le ho, by simp [ho]⟩
    · have hm := w.moved_unload c c.room
      exact .inr (.inl ⟨_, _, _, hm, by simp [ho], rfl, by simp [ho]⟩)
  | false =>
    -- With nothing to send, a drain does not notice that the reader is gone.
    rw [w.drain_of_deaf hl]
    by_cases ho : w.outbox.length = 0
    · exact .inl ⟨_, _, _, .refl w c, by simp [ho], Emitted.eq_empty_of_length ho, by simp [ho]⟩
    · exact .inr (.inr (by simp [ho]))

theorem drained_induction {P : Turn → Prop} {call : Call} {left : Writer → Writing}
    {next : Writer → Channel → Turn} (w : Writer) (c : Channel)
    (done : ∀ w c, P (next w c)) (stalled : ∀ w c, P (.suspended w call c))
    (refused : ∀ w c, P (.refused (left w) c)) : P (w.drained c call left next) := by
  unfold drained
  split
  · exact done _ _
  · exact stalled _ _
  · exact refused _ _

theorem mark_cases (w : Writer) (f : Frame) (call : Call) (log : List Event) (c : Channel) :
    (c.listening = true ∧ 0 < c.room ∧
      w.mark f call log c = ⟨some (.ok ()), .gone, c.extend [f], log⟩) ∨
    (c.listening = true ∧ c.room = 0 ∧ w.mark f call log c = .suspended w call c) ∨
    (c.listening = false ∧ w.mark f call log c = .refused .gone c) := by
  unfold mark
  cases hl : c.listening with
  | true =>
    rcases Nat.eq_zero_or_pos c.room with hr | hr
    · exact .inr (.inl ⟨rfl, hr, by rw [Channel.send_of_full hl hr]⟩)
    · exact .inl ⟨rfl, hr, by simp [Channel.send_of_room hl hr, Turn.succeeded, Turn.after]⟩
  | false => exact .inr (.inr ⟨rfl, by rw [Channel.send_of_deaf hl]⟩)

/-- How often a write that is polled now gets past its first drain. -/
def admits (w : Writer) (c : Channel) : Nat := if (w.drain c).1 = .done then 1 else 0

theorem settle_cases (w : Writer) (c : Channel) :
    (∃ ts w' c', Moved w c ts w' c' ∧ w'.outbox = {} ∧ w.settle c = .succeeded (.idle w') c') ∨
    (∃ ts w' c', Moved w c ts w' c' ∧ c.listening = true ∧ w.settle c = .suspended w' .settle c') ∨
    (c.listening = false ∧ w.settle c = .refused (.idle w) c) := by
  unfold settle
  rcases w.drained_cases c .settle .idle fun w c => .succeeded (.idle w) c with
    ⟨ts, w', c', hm, -, ho, he⟩ | ⟨ts, w', c', hm, -, hl, he⟩ | ⟨-, hl, he⟩
  · exact .inl ⟨ts, w', c', hm, ho, he⟩
  · exact .inr (.inl ⟨ts, w', c', hm, hl, he⟩)
  · exact .inr (.inr ⟨hl, he⟩)

/-- A write accepts its token exactly when its first drain empties the outbox. -/
theorem write_cases (w : Writer) (t : Token) (c : Channel) :
    (∃ ts w' c', Moved w c ts w' c' ∧ w.admits c = 1 ∧ w'.outbox = {} ∧
      w.write t c = (w'.accept t).settle c') ∨
    (∃ ts w' c', Moved w c ts w' c' ∧ w.admits c = 0 ∧ c.listening = true ∧
      w.write t c = .suspended w' (.write t) c') ∨
    (w.admits c = 0 ∧ c.listening = false ∧ w.write t c = .refused (.idle w) c) := by
  unfold write admits
  rcases w.drained_cases c (.write t) .idle fun w c => (w.accept t).settle c with
    ⟨ts, w', c', hm, hd, ho, he⟩ | ⟨ts, w', c', hm, hd, hl, he⟩ | ⟨hd, hl, he⟩
  · exact .inl ⟨ts, w', c', hm, by simp [hd], ho, he⟩
  · exact .inr (.inl ⟨ts, w', c', hm, by simp [hd], hl, he⟩)
  · exact .inr (.inr ⟨by simp [hd], hl, he⟩)

/-- A write that has come to an end leaves the writer behind, one that suspends a call of its
own. -/
theorem write_writing (w : Writer) (t : Token) (c : Channel) :
    (∃ w', (w.write t c).outcome ≠ none ∧ (w.write t c).writing = .idle w') ∨
    (∃ w' call, call.writes = true ∧ (w.write t c).writing = .busy w' call) := by
  rcases w.write_cases t c with
    ⟨ts, w', c', -, -, -, he⟩ | ⟨ts, w', c', -, -, -, he⟩ | ⟨-, -, he⟩ <;> rw [he]
  · rcases (w'.accept t).settle_cases c' with
      ⟨us, v, d, -, -, he⟩ | ⟨us, v, d, -, -, he⟩ | ⟨-, he⟩ <;> rw [he]
    · exact .inl ⟨v, nofun, rfl⟩
    · exact .inr ⟨v, .settle, rfl, rfl⟩
    · exact .inl ⟨_, nofun, rfl⟩
  · exact .inr ⟨w', .write t, rfl, rfl⟩
  · exact .inl ⟨w, nofun, rfl⟩

@[simp] theorem merger_flush (w : Writer) : w.flush.1.merger = {} := by
  unfold flush Merger.finish
  cases w.merger.pending <;> rfl

@[simp] theorem written_flush (w : Writer) : w.flush.1.written = w.written := by
  unfold flush
  split <;> rfl

/-- A flush of an empty outbox makes the open run the outbox. -/
theorem outbox_flush {w : Writer} (h : w.outbox = {}) :
    w.flush.1.outbox.toList = w.merger.held := by
  unfold flush Merger.held Merger.finish
  cases w.merger.pending with
  | none => simp [h]
  | some r => rfl

end Writer

def Item.taken : Item → List Token
  | token t => [t]
  | _ => []

namespace Reader

theorem poll_cases (r : Reader) (alone : Bool) (c : Channel) :
    (c.listening = false ∧ r.poll alone c = (.ended, r, c, [])) ∨
    (c.listening = true ∧ ∃ t fs, c.frames = .token t :: fs ∧ r.poll alone c =
      (.token t, ⟨r.delivered + 1⟩, { c with frames := fs }, [.delivered t.kind t.span])) ∨
    (c.listening = true ∧ ∃ fs, c.frames = .closed :: fs ∧ r.poll alone c =
      (.ended, r, { c with frames := fs }.mute, [])) ∨
    (c.listening = true ∧ ∃ e fs, c.frames = .aborted e :: fs ∧ r.poll alone c =
      (.failed (.aborted e), r, { c with frames := fs }.mute, [])) ∨
    (c.listening = true ∧ c.frames = [] ∧ alone = true ∧ r.poll alone c =
      (.failed .writerDropped, r, c.mute, [.vanished r.delivered])) ∨
    (c.listening = true ∧ c.frames = [] ∧ alone = false ∧
      r.poll alone c = (.pending, r, c, [])) := by
  unfold poll
  cases hl : c.listening with
  | false => exact .inl ⟨rfl, rfl⟩
  | true =>
    match hf : c.frames with
    | .token t :: fs => exact .inr (.inl ⟨rfl, t, fs, rfl, rfl⟩)
    | .closed :: fs => exact .inr (.inr (.inl ⟨rfl, fs, rfl, rfl⟩))
    | .aborted e :: fs => exact .inr (.inr (.inr (.inl ⟨rfl, e, fs, rfl, rfl⟩)))
    | [] => cases alone <;> simp

/-- The tokens that a collection polled now takes out of the channel. -/
def drawn (r : Reader) (alone : Bool) (c : Channel) : List Token :=
  match _h : r.poll alone c with
  | (.token t, r, c', _) => t :: drawn r alone c'
  | _ => []
termination_by c.frames.length
decreasing_by simp [frames_of_poll _h]

theorem poll_counts {r r' : Reader} {alone : Bool} {c c' : Channel} {i : Item} {es : List Event}
    (h : r.poll alone c = (i, r', c', es)) : r' = ⟨r.delivered + i.taken.length⟩ := by
  rcases r.poll_cases alone c with ⟨-, he⟩ | ⟨-, u, fs, -, he⟩ | ⟨-, fs, -, he⟩ |
      ⟨-, e, fs, -, he⟩ | ⟨-, -, -, he⟩ | ⟨-, -, -, he⟩ <;>
    rw [he] at h <;> cases h <;> rfl

/-- All that a collection can come to. It keeps and counts what it draws. -/
theorem collect_cases (r : Reader) (alone : Bool) (taken : List Token) (c : Channel) :
    (∃ c' es, r.collect alone taken c = (none, .collecting
      ⟨r.delivered + (r.drawn alone c).length⟩ (taken ++ r.drawn alone c), c', es)) ∨
    (∃ c' es, r.collect alone taken c = (some (.ok (taken ++ r.drawn alone c)), .gone, c', es)) ∨
    (∃ f c' es, r.collect alone taken c = (some (.error f), .gone, c', es)) := by
  fun_induction collect r alone taken c with
  | case1 r taken c t r' c' es hp out s c'' es' hc ih =>
    -- The rest of the collection starts with the token just taken and counted.
    have hd : r.drawn alone c = t :: r'.drawn alone c' := by rw [drawn, hp]
    have hn : r'.delivered + (r'.drawn alone c').length =
        r.delivered + (t :: r'.drawn alone c').length := by
      have hr : r'.delivered = r.delivered + 1 := by rw [poll_counts hp]; rfl
      rw [hr, List.length_cons]
      omega
    rw [hc, List.append_assoc, hn] at ih
    rw [hd]
    rcases ih with ⟨d, fs, he⟩ | ⟨d, fs, he⟩ | ⟨f, d, fs, he⟩ <;> cases he
    · exact .inl ⟨_, _, rfl⟩
    · exact .inr (.inl ⟨_, _, rfl⟩)
    · exact .inr (.inr ⟨f, _, _, rfl⟩)
  | case2 r taken c r' c' es hp =>
    have hd : r.drawn alone c = [] := by rw [drawn, hp]
    exact .inr (.inl ⟨c', es, by rw [hd, List.append_nil]⟩)
  | case3 r taken c f r' c' es hp => exact .inr (.inr ⟨f, c', es, rfl⟩)
  | case4 r taken c r' c' es hp =>
    have hd : r.drawn alone c = [] := by rw [drawn, hp]
    exact .inl ⟨c', es, by rw [hd, List.append_nil, poll_counts hp]; rfl⟩

end Reader

end Stream

end Coalesce
