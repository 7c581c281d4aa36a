import Coalesce.Proofs.Stream.Backpressure

namespace Coalesce.Stream

def Answer.token? : Answer → Option Token
  | .token t => some t
  | _ => none

def yielded (ys : List Step) : List Token := ys.filterMap (·.answer.token?)

def suspended (ys : List Step) : Bool := ys.getLast?.any (·.answer = .pending)

def reached (s : Stream) (ys : List Step) : Stream := (ys.getLast?.map (·.stream)).getD s

theorem reached_cons (s : Stream) (y : Step) (ys : List Step) :
    s.reached (y :: ys) = y.stream.reached ys := by
  cases ys <;> rfl

theorem step_next {s : Stream} {r : Reader} (hr : s.reading = .idle r) :
    s.step .next = s.ofItem (r.poll s.alone s.channel) := by
  rw [step, withReader, hr]

theorem frames_of_step_next {s : Stream} {t : Token} (h : (s.step .next).answer = .token t) :
    s.channel.frames = .token t :: (s.step .next).stream.channel.frames := by
  cases hr : s.reading with
  | idle r =>
    rw [step_next hr] at h ⊢
    rcases hp : r.poll s.alone s.channel with ⟨i, r', c, es⟩
    rw [hp] at h
    cases i <;> cases h
    exact Reader.frames_of_poll hp
  | collecting r taken => simp [step, withReader, hr, stay] at h
  | gone => simp [step, withReader, hr, stay] at h

/-- Polls for the next token until one yields none. -/
def polls (s : Stream) : List Step :=
  s.step .next ::
    match _h : (s.step .next).answer with
    | .token _ => polls (s.step .next).stream
    | _ => []
termination_by s.channel.frames.length
decreasing_by simp [frames_of_step_next _h]

/-- What an operation comes to with polls in place of a collection: none are made once the last of
them did not suspend. -/
def attempts (s : Stream) (waits : Bool) (op : Op) : List Step :=
  if op.reads then if waits then s.polls else [] else [s.step op]

/-- The steps of a run with polls in place of a collection, for each operation. -/
def unrolled (s : Stream) (waits : Bool) : List Op → List (List Step)
  | [] => []
  | op :: ops =>
    let ys := s.attempts waits op
    ys :: (s.reached ys).unrolled (if op.reads then suspended ys else waits) ops

/-- The operations that stand in the place of one. -/
def Op.polled (op : Op) (n : Nat) : List Op := if op.reads then List.replicate n .next else [op]

def Op.writes : Op → Bool
  | .write _ | .startWrite _ | .close | .abort _ | .pollWriter | .cancelWriter | .dropWriter => true
  | _ => false

/-- What the last of the polls answers, which have yielded `held`, and what the collection does. -/
inductive SumsUp (held : List Token) : Answer → Answer → Prop where
  | pending : SumsUp held .pending .pending
  | ended : SumsUp held .ended (.tokens held)
  | failed (f : Failure) : SumsUp held (.failed f) (.failed f)

/-- An operation in a run with a collection, and what it comes to with polls in its place, which
have yielded `held` when it is done. -/
structure Matches (op : Op) (held : List Token) (x : Step) (ys : List Step) : Prop where
  log : x.log = ys.flatMap (·.log)
  writing : ∀ y ∈ ys, y.stream.writing = x.stream.writing
  channel : ∀ y ∈ ys.getLast?, y.stream.channel = x.stream.channel
  writer : op.writes = true → ys.map (·.answer) = [x.answer]
  reader : op.reads = true → ys = [] ∧ x.answer = .noTask ∨
    ∃ a, ys.map (·.answer) = (yielded ys).map .token ++ [a] ∧ SumsUp held a x.answer

/-- A stream `s` that collects and has got `held`, and one in which polls stand in the place of the
collection, while they wait and after that. -/
inductive Mirrors (held : List Token) (s : Stream) : Bool → Stream → Prop where
  | waiting {r : Reader} (h : s.reading = .collecting r held) :
      Mirrors held s true { s with reading := .idle r }
  | finished (h : s.reading = .gone) (g : Reading) : Mirrors held s false { s with reading := g }

theorem Mirrors.channel {held : List Token} {s p : Stream} {waits : Bool}
    (h : Mirrors held s waits p) : p.channel = s.channel := by
  cases h <;> rfl

/-- The polls `ys` of the stream `p` do what a poll of a collection does that had got `held`. -/
structure Gathers (held : List Token) (p : Stream) (x : Step) (ys : List Step) : Prop where
  log : x.log = ys.flatMap (·.log)
  writing : ∀ y ∈ ys, y.stream.writing = x.stream.writing
  answers : ∃ a, ys.map (·.answer) = (yielded ys).map .token ++ [a] ∧
    SumsUp (held ++ yielded ys) a x.answer
  mirrors : Mirrors (held ++ yielded ys) x.stream (suspended ys) (p.reached ys)

def ofCollection (s : Stream) :
    Option (Except Failure (List Token)) × Reading × Channel × List Event → Step
  | (out, reading, channel, log) =>
    { stream := { s with reading, channel }
      answer := match out with
        | none => .pending
        | some (.ok ts) => .tokens ts
        | some (.error f) => .failed f
      log }

theorem collectWith_eq (s : Stream) (r : Reader) (taken : List Token) :
    s.collectWith r taken = s.ofCollection (r.collect s.alone taken s.channel) := rfl

variable {s p : Stream} {r r' : Reader} {c c' : Channel} {es : List Event} {held : List Token}

theorem step_next_idle {i : Item} (hp : r.poll s.alone c = (i, r', c', es)) :
    step { s with channel := c, reading := .idle r } .next = s.ofItem (i, r', c', es) := by
  rw [step_next rfl]
  show ofItem _ (r.poll s.alone c) = _
  rw [hp]
  rfl

theorem polls_of_token {t : Token} (hp : r.poll s.alone c = (.token t, r', c', es)) :
    polls { s with channel := c, reading := .idle r } =
      ⟨{ s with channel := c', reading := .idle r' }, .token t, es⟩ ::
        polls { s with channel := c', reading := .idle r' } := by
  rw [polls, step_next_idle hp]
  rfl

theorem polls_of_last {i : Item} (hp : r.poll s.alone c = (i, r', c', es)) (hi : i.taken = []) :
    polls { s with channel := c, reading := .idle r } = [s.ofItem (i, r', c', es)] := by
  rw [polls, step_next_idle hp]
  cases i <;> first | rfl | contradiction

theorem Gathers.cons {t : Token} {x : Step} {ys : List Step} (h : Gathers (held ++ [t]) p x ys)
    (hw : p.writing = x.stream.writing) (s : Stream) (es : List Event) :
    Gathers held s { x with log := es ++ x.log } (⟨p, .token t, es⟩ :: ys) := by
  obtain ⟨hlog, hwriting, ⟨a, ha, hsum⟩, hm⟩ := h
  have hy : yielded (⟨p, .token t, es⟩ :: ys) = t :: yielded ys := rfl
  have hs : suspended (⟨p, .token t, es⟩ :: ys) = suspended ys := by
    cases ys <;> rfl
  rw [List.append_assoc] at hsum hm
  refine ⟨?_, ?_, ⟨a, ?_, ?_⟩, ?_⟩
  · rw [List.flatMap_cons, hlog]
  · exact List.forall_mem_cons.2 ⟨hw, hwriting⟩
  · rw [hy, List.map_cons, ha]
    rfl
  · rw [hy]
    exact hsum
  · rw [hy, hs, reached_cons]
    exact hm

theorem Gathers.last {x y : Step} (hlog : x.log = y.log)
    (hw : y.stream.writing = x.stream.writing) (hs : SumsUp held y.answer x.answer)
    (hm : Mirrors held x.stream (suspended [y]) y.stream) : Gathers held p x [y] := by
  have hy : yielded [y] = [] := by
    rw [yielded, List.filterMap_cons]
    generalize y.answer = a at hs
    generalize x.answer = b at hs
    cases hs <;> rfl
  refine ⟨?_, ?_, ⟨y.answer, ?_, ?_⟩, ?_⟩
  · rw [List.flatMap_singleton, hlog]
  · exact List.forall_mem_singleton.2 hw
  · rw [hy]
    rfl
  · rw [hy, List.append_nil]
    exact hs
  · rw [hy, List.append_nil]
    exact hm

/-- One poll of a collection is as many polls for the next token as it takes to find none. -/
theorem gathers (s : Stream) (r : Reader) (held : List Token) (c : Channel) :
    Gathers held { s with channel := c, reading := .idle r }
      (s.ofCollection (r.collect s.alone held c))
      (polls { s with channel := c, reading := .idle r }) := by
  fun_induction Reader.collect r s.alone held c with
  | case1 r held c t r' c' es hp out g c'' es' hc ih =>
    -- A token is taken, and both go on with it in hand.
    rw [hc] at ih
    rw [polls_of_token hp]
    exact ih.cons rfl _ es
  | case2 r held c r' c' es hp =>
    rw [polls_of_last hp rfl]
    exact .last rfl rfl .ended (.finished rfl _)
  | case3 r held c f r' c' es hp =>
    rw [polls_of_last hp rfl]
    exact .last rfl rfl (.failed f) (.finished rfl _)
  | case4 r held c r' c' es hp =>
    rw [polls_of_last hp rfl]
    exact .last rfl rfl .pending (.waiting rfl)

theorem Matches.of_nil {x : Step} (hlog : x.log = []) (ha : x.answer = .noTask) :
    Matches .pollReader held x [] where
  log := hlog
  writing _ hy := absurd hy List.not_mem_nil
  channel _ hy := absurd hy (Option.not_mem_none _)
  writer hw := absurd hw (by decide)
  reader _ := .inl ⟨rfl, ha⟩

theorem Gathers.matches {op : Op} {x : Step} {ys : List Step} (h : Gathers held p x ys)
    (hr : op.reads = true) : Matches op (held ++ yielded ys) x ys := by
  refine ⟨h.log, h.writing, ?_, ?_, fun _ => .inr h.answers⟩
  · intro y hy
    have hm := h.mirrors
    rw [reached, hy] at hm
    exact hm.channel
  · intro hw
    cases op <;> contradiction

theorem step_reading {op : Op} (ho : op.writes = true) (s : Stream) (g : Reading) :
    step { s with reading := g } op =
      { s.step op with stream := { (s.step op).stream with reading := g } } := by
  obtain ⟨c, writing, reading⟩ := s
  cases op <;> cases writing <;> first | rfl | contradiction

theorem reading_step {op : Op} (ho : op.writes = true) (s : Stream) :
    (s.step op).stream.reading = s.reading :=
  congrArg (·.stream.reading) (step_reading ho s s.reading)

theorem reads_of_writes {op : Op} (ho : op.writes = true) : op.reads = false := by
  cases op <;> first | rfl | contradiction

theorem yielded_of_writes {op : Op} (ho : op.writes = true) (s : Stream) :
    yielded [s.step op] = [] := by
  have ha := (answer_of_not_reads (s := s) (reads_of_writes ho)).1
  rw [yielded, List.filterMap_cons]
  cases h : (s.step op).answer with
  | token t => exact absurd h (ha t)
  | _ => rfl

theorem matches_of_writes {op : Op} (ho : op.writes = true) (s : Stream) (g : Reading)
    (held : List Token) : Matches op held (s.step op) [step { s with reading := g } op] := by
  rw [step_reading ho s g]
  refine ⟨?_, ?_, ?_, fun _ => rfl, ?_⟩
  · rw [List.flatMap_singleton]
  · exact List.forall_mem_singleton.2 rfl
  · rintro y ⟨⟩
    rfl
  · rw [reads_of_writes ho]
    exact nofun

theorem attempts_of_writes {op : Op} (ho : op.writes = true) (s : Stream) (waits : Bool) :
    s.attempts waits op = [s.step op] := by
  rw [attempts, reads_of_writes ho]
  rfl

theorem Mirrors.next {waits : Bool} {op : Op} (hm : Mirrors held s waits p)
    (ho : op.writes = true ∨ op = .pollReader) :
    Matches op (held ++ yielded (p.attempts waits op)) (s.step op) (p.attempts waits op) ∧
      Mirrors (held ++ yielded (p.attempts waits op)) (s.step op).stream
        (if op.reads then suspended (p.attempts waits op) else waits)
        (p.reached (p.attempts waits op)) := by
  rcases ho with ho | rfl
  · rw [attempts_of_writes ho, yielded_of_writes ho, List.append_nil, reads_of_writes ho]
    have hs := reading_step ho s
    cases hm with
    | @waiting r h =>
      refine ⟨matches_of_writes ho s _ held, ?_⟩
      rw [step_reading ho s (.idle r)]
      exact .waiting (hs.trans h)
    | finished h g =>
      refine ⟨matches_of_writes ho s g held, ?_⟩
      rw [step_reading ho s g]
      exact .finished (hs.trans h) g
  · cases hm with
    | @waiting r h =>
      have hx : s.step .pollReader = s.collectWith r held := by rw [step, h]
      have hg := gathers s r held s.channel
      rw [hx]
      exact ⟨hg.matches rfl, hg.mirrors⟩
    | finished h g =>
      have hx : s.step .pollReader = s.stay .noTask := by rw [step, h]
      have ha : attempts { s with reading := g } false .pollReader = [] := by
        rw [attempts]
        rfl
      rw [hx, ha, yielded, List.filterMap_nil, List.append_nil]
      exact ⟨.of_nil rfl rfl, .finished h g⟩

theorem Mirrors.run {waits : Bool} {ops : List Op} (hm : Mirrors held s waits p)
    (ho : ∀ op ∈ ops, op.writes = true ∨ op = .pollReader) {i : Nat} {op : Op} {x : Step}
    {ys : List Step} (hop : ops[i]? = some op) (hx : (s.run ops)[i]? = some x)
    (hys : (p.unrolled waits ops)[i]? = some ys) :
    Matches op (held ++ yielded ((p.unrolled waits ops).take (i + 1)).flatten) x ys := by
  induction ops generalizing held s waits p i with
  | nil => contradiction
  | cons o ops ih =>
    obtain ⟨ho, hops⟩ := List.forall_mem_cons.1 ho
    obtain ⟨hmatch, hnext⟩ := hm.next ho
    rw [Stream.run] at hx
    rw [unrolled] at hys ⊢
    cases i with
    | zero =>
      cases hop
      cases hx
      cases hys
      simpa using hmatch
    | succ i =>
      -- What was yielded here comes before what the rest yields.
      have h := ih hnext hops hop hx hys
      rw [List.append_assoc] at h
      simpa [yielded] using h

theorem run_append (s : Stream) (ops ops' : List Op) :
    s.run (ops ++ ops') = s.run ops ++ (s.reached (s.run ops)).run ops' := by
  induction ops generalizing s with
  | nil => rfl
  | cons op ops ih =>
    rw [List.cons_append, run, run, reached_cons, ih, List.cons_append]

theorem polls_eq_run (s : Stream) : s.polls = s.run (List.replicate s.polls.length .next) := by
  fun_induction polls s with
  | case1 s ih =>
    rw [List.length_cons, List.replicate_succ, run]
    split
    · next t ht => exact congrArg (List.cons _) (ih t ht)
    · rfl

/-- Every poll but the last takes a frame out of the channel. -/
theorem length_polls_le (s : Stream) : s.polls.length ≤ s.channel.frames.length + 1 := by
  fun_induction polls s with
  | case1 s ih =>
    rw [List.length_cons]
    split
    · next t ht =>
      have hf := congrArg List.length (frames_of_step_next ht)
      rw [List.length_cons] at hf
      have hl := ih t ht
      omega
    · exact Nat.succ_le_succ (Nat.zero_le _)

theorem attempts_eq_run (s : Stream) (waits : Bool) (op : Op) :
    s.attempts waits op = s.run (op.polled (s.attempts waits op).length) := by
  unfold attempts Op.polled
  cases op.reads with
  | false => rfl
  | true =>
    cases waits with
    | false => rfl
    | true => exact s.polls_eq_run

theorem flatten_unrolled (s : Stream) (waits : Bool) (ops : List Op) :
    (s.unrolled waits ops).flatten =
      s.run ((ops.zip (s.unrolled waits ops)).flatMap fun q => q.1.polled q.2.length) := by
  induction ops generalizing s waits with
  | nil => rfl
  | cons op ops ih =>
    rw [unrolled, List.flatten_cons, List.zip_cons_cons, List.flatMap_cons, run_append,
      ← attempts_eq_run, ← ih]

theorem length_run (s : Stream) (ops : List Op) : (s.run ops).length = ops.length := by
  induction ops generalizing s with
  | nil => rfl
  | cons op ops ih => rw [run, List.length_cons, List.length_cons, ih]

theorem length_unrolled (s : Stream) (waits : Bool) (ops : List Op) :
    (s.unrolled waits ops).length = ops.length := by
  induction ops generalizing s waits with
  | nil => rfl
  | cons op ops ih => rw [unrolled, List.length_cons, List.length_cons, ih]

namespace History

variable {h : History} {n : Nat}

theorem stream_run (h : History) (ops : List Op) :
    (h.run ops).stream = h.stream.reached (h.stream.run ops) := by
  induction ops generalizing h with
  | nil => rfl
  | cons op ops ih =>
    rw [run_cons, ih, Stream.run, reached_cons]
    rfl

theorem Bounded.length_attempts_le (hb : h.Bounded n) (waits : Bool) (op : Op) :
    (h.stream.attempts waits op).length ≤ n + 1 := by
  have hf := hb.channel.frames
  have hl := h.stream.length_polls_le
  unfold attempts
  split
  · split
    · omega
    · exact Nat.zero_le _
  · exact Nat.succ_le_succ (Nat.zero_le _)

theorem Reachable.length_unrolled_le (hr : h.Reachable) (hb : h.Bounded n) (waits : Bool)
    (ops : List Op) : ∀ ys ∈ h.stream.unrolled waits ops, ys.length ≤ n + 1 := by
  induction ops generalizing h waits with
  | nil => exact fun _ hy => absurd hy List.not_mem_nil
  | cons op ops ih =>
    rw [unrolled]
    refine List.forall_mem_cons.2 ⟨hb.length_attempts_le waits op, ?_⟩
    -- The attempts are themselves a run, and what a run leads to is reachable.
    have hrun := h.stream_run (op.polled (h.stream.attempts waits op).length)
    rw [← attempts_eq_run] at hrun
    rw [← hrun]
    exact ih (hr.run _) (hb.run hr.sound _) _

end History

/-- A collection agrees with polls for the next token in its place, whatever is done to the writer
between them: at each operation the log and the writer come out the same, the collection waits when
the last of the polls does, it ends with the tokens that the polls yielded when they end, and it
fails as they fail. No poll of a collection takes more polls than there are places, and one. -/
theorem unrolling {h : History} (hr : h.Reachable) {r : Reader} (hi : h.stream.reading = .idle r)
    {ops : List Op} (ho : ∀ op ∈ ops, op.writes = true ∨ op = .pollReader) :
    let s := h.stream
    let script := Op.collect :: ops
    let yss := s.unrolled true script
    yss.flatten = s.run ((script.zip yss).flatMap fun q => q.1.polled q.2.length) ∧
    (s.run script).length = script.length ∧ yss.length = script.length ∧
    (∀ ys ∈ yss, ys.length ≤ s.channel.capacity + 1) ∧
    ∀ i op x ys, script[i]? = some op → (s.run script)[i]? = some x → yss[i]? = some ys →
      Matches op (yielded (yss.take (i + 1)).flatten) x ys := by
  intro s script yss
  obtain ⟨n, hb⟩ := hr.bounded
  have hn : s.channel.capacity = n := hb.channel.capacity
  have hidle : { s with reading := .idle r } = s := by rw [← hi]
  have hg := gathers s r [] s.channel
  rw [hidle, ← collectWith_eq] at hg
  have hcollect : Matches .collect (yielded s.polls) (s.collectWith r []) s.polls :=
    hg.matches rfl
  have hx : s.step .collect = s.collectWith r [] := by rw [step, withReader, hi]
  have hyss : yss = s.polls :: (s.reached s.polls).unrolled (suspended s.polls) ops := rfl
  refine ⟨flatten_unrolled s true script, length_run s script, length_unrolled s true script,
    hn ▸ hr.length_unrolled_le hb true script, ?_⟩
  intro i op x ys hop hxs hys
  rw [run, hx] at hxs
  rw [hyss] at hys ⊢
  cases i with
  | zero =>
    cases hop
    cases hxs
    cases hys
    simpa using hcollect
  | succ i =>
    have hrest := hg.mirrors.run ho hop hxs hys
    simpa [yielded] using hrest

/-- With one place, a write and a close suspend between the polls of a collection, which takes three
polls to get three tokens and a fourth to find the end. -/
theorem unrolling_crowded :
    let a : Token := ⟨.interpolation, "a", ⟨0, 1⟩⟩
    let b : Token := ⟨.literal, "b", ⟨1, 2⟩⟩
    let c : Token := ⟨.interpolation, "c", ⟨2, 3⟩⟩
    let h := ({ stream := { channel := { capacity := 1 } } } : History).run [.write a]
    let ops : List Op := [.startWrite b, .startWrite c, .pollReader, .pollWriter, .close,
      .pollReader, .pollWriter, .pollReader, .pollReader]
    let s := h.stream
    let script := Op.collect :: ops
    let yss := s.unrolled true script
    h.Reachable ∧ s.reading = .idle {} ∧ (∀ op ∈ ops, op.writes = true ∨ op = .pollReader) ∧
      (s.run script).map (·.answer) = [.pending, .ok, .pending, .pending, .ok, .pending, .pending,
        .ok, .tokens [a, b, c], .noTask] ∧
      yss.map (·.map (·.answer)) = [[.token a, .pending], [.ok], [.pending], [.token b, .pending],
        [.ok], [.pending], [.token c, .pending], [.ok], [.ended], []] ∧
      (∀ ys ∈ yss, ys.length ≤ s.channel.capacity + 1) ∧
      ∀ i op x ys, script[i]? = some op → (s.run script)[i]? = some x → yss[i]? = some ys →
        Matches op (yielded (yss.take (i + 1)).flatten) x ys := by
  intro a b c h ops s script yss
  have hr : h.Reachable := (History.Reachable.start (rfl : withCapacity 1 = _)).run [.write a]
  have hi : s.reading = .idle {} := by decide +kernel
  have ho : ∀ op ∈ ops, op.writes = true ∨ op = .pollReader := by decide
  obtain ⟨-, -, -, hl, hm⟩ := unrolling hr hi ho
  exact ⟨hr, hi, ho, by decide +kernel, by decide +kernel, hl, hm⟩

end Coalesce.Stream
