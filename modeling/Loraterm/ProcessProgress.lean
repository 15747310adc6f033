import Loraterm.ProcessSignals

/-!
# What the loop and the signal task can do

Whatever state the process is in, the main loop and the signal task get on without the stream task
and the sessions: the loop polls the signals again, takes the orders that wait, and the signals that
are pending become orders.
-/

namespace Loraterm

open Utf8Text Mpsc WatchChannel Execution

/-- Steps of the main loop and of the signal task, with given answers of the outside. -/
def Attending (terminal : Option Terminal) (unixSecs : Nat) : ProcessAction → Prop
  | .pollSignals => True
  | .pollEvents granted seconds => granted = terminal ∧ seconds = unixSecs
  | .send seconds => seconds = unixSecs
  | .signal .send => True
  | .signal (.take _) => True
  | _ => False

namespace Process

variable (strip : List UInt8 → List UInt8) (reader : JsonReader)
  (parseToml : Text → Except Text WhitelistFile) (path : Text) (terminal : Option Terminal)
  (unixSecs : Nat)

/-- The loop and the signal task bring a process to another state, in no time. -/
structure Reaches (process reached : Process) : Prop where
  leads : Leads (step strip reader parseToml path) (Attending terminal unixSecs) process reached
  clock : reached.stream.clock = process.stream.clock
  file : reached.file = process.file

/-- The loop is about to poll the signals. -/
structure Polling (process : Process) : Prop where
  running : process.daemon.phase = .running
  arm : process.arm = .signals

variable {strip reader parseToml path terminal unixSecs} {process middle reached : Process}

theorem Reaches.refl (process : Process) :
    Reaches strip reader parseToml path terminal unixSecs process process :=
  ⟨.refl process, rfl, rfl⟩

theorem Reaches.trans (first : Reaches strip reader parseToml path terminal unixSecs process middle)
    (second : Reaches strip reader parseToml path terminal unixSecs middle reached) :
    Reaches strip reader parseToml path terminal unixSecs process reached :=
  ⟨first.leads.trans second.leads, second.clock.trans first.clock, second.file.trans first.file⟩

theorem Reaches.single (action : ProcessAction) (attending : Attending terminal unixSecs action)
    (alive : process.daemon.isOver = false)
    (stepped : process.act strip reader parseToml path action = some reached)
    (clock : reached.stream.clock = process.stream.clock) (file : reached.file = process.file) :
    Reaches strip reader parseToml path terminal unixSecs process reached := by
  refine ⟨.single attending ?_, clock, file⟩
  simp only [step, alive, Bool.false_eq_true, if_false]
  exact stepped

theorem Polling.alive (polling : process.Polling) : process.daemon.isOver = false := by
  rw [Daemon.isOver, polling.running]

theorem Polling.within (polling : process.Polling) : process.daemon.phase.inLoop = true := by
  rw [polling.running]
  rfl

/-! ## The loop -/

theorem reaches_of_dispatching {key text : Text}
    (dispatching : process.daemon.phase = .dispatching key text) :
    ∃ reached, Reaches strip reader parseToml path terminal unixSecs process reached ∧
      reached.daemon.phase = .running ∧ reached.arm = process.arm ∧
        reached.signals = process.signals := by
  have moved : process.daemon.step strip reader (.send unixSecs) =
      some (process.daemon.send key text unixSecs) := by
    simp [Daemon.step, dispatching]
  have alive : process.daemon.isOver = false := by rw [Daemon.isOver, dispatching]
  refine ⟨{ process with daemon := process.daemon.send key text unixSecs }, ?_,
    (phase_of_send moved).2, rfl, rfl⟩
  exact .single (.send unixSecs) rfl alive (by rw [act, ofDaemon, moved]; rfl) rfl rfl

/-- From the event arm the loop gets to a dispatch, to the signals, or out. -/
theorem reaches_of_events (running : process.daemon.phase = .running)
    (polling : process.arm = .events) :
    ∃ reached, Reaches strip reader parseToml path terminal unixSecs process reached ∧
      (reached.daemon.phase.inLoop = false ∨
        (reached.arm = .signals ∧ reached.signals = process.signals)) := by
  have alive : process.daemon.isOver = false := by rw [Daemon.isOver, running]
  have stepped : process.act strip reader parseToml path (.pollEvents terminal unixSecs) =
      some (process.pollEvents terminal unixSecs) := by
    simp [act, running, polling]
  refine ⟨process.pollEvents terminal unixSecs, ?_, ?_⟩
  · refine .single (.pollEvents terminal unixSecs) ⟨rfl, rfl⟩ alive stepped ?_ ?_
    · rw [pollEvents]
      split
      · rfl
      · split <;> rfl
    · rw [pollEvents]
      split
      · rfl
      · split <;> rfl
  · rw [pollEvents]
    split
    · exact .inr ⟨rfl, rfl⟩
    · split
      · exact .inl rfl
      · exact .inr ⟨rfl, rfl⟩

/-- The loop polls the signals again, if it is not left before. -/
theorem reaches_polling (within : process.daemon.phase.inLoop = true) :
    ∃ reached, Reaches strip reader parseToml path terminal unixSecs process reached ∧
      (reached.daemon.phase.inLoop = false ∨
        (reached.Polling ∧ reached.signals = process.signals)) := by
  have from_signals : ∀ {process : Process}, process.daemon.phase.inLoop = true →
      process.arm = .signals →
        ∃ reached, Reaches strip reader parseToml path terminal unixSecs process reached ∧
          reached.Polling ∧ reached.signals = process.signals := by
    intro process within arm
    cases phase_eq : process.daemon.phase with
    | running => exact ⟨process, .refl process, ⟨phase_eq, arm⟩, rfl⟩
    | dispatching key text =>
        obtain ⟨reached, reaches, running, same_arm, same⟩ := reaches_of_dispatching phase_eq
        exact ⟨reached, reaches, ⟨running, same_arm.trans arm⟩, same⟩
    | _ =>
        rw [phase_eq] at within
        cases within
  have from_running : ∀ {process : Process}, process.daemon.phase = .running →
      ∃ reached, Reaches strip reader parseToml path terminal unixSecs process reached ∧
        (reached.daemon.phase.inLoop = false ∨
          (reached.Polling ∧ reached.signals = process.signals)) := by
    intro process running
    cases arm : process.arm with
    | signals => exact ⟨process, .refl process, .inr ⟨⟨running, arm⟩, rfl⟩⟩
    | events =>
        obtain ⟨middle, reaches, left | ⟨arm, same⟩⟩ := reaches_of_events running arm
        · exact ⟨middle, reaches, .inl left⟩
        · cases still : middle.daemon.phase.inLoop with
          | false => exact ⟨middle, reaches, .inl still⟩
          | true =>
              obtain ⟨reached, further, polling, unchanged⟩ := from_signals still arm
              exact ⟨reached, reaches.trans further, .inr ⟨polling, unchanged.trans same⟩⟩
  cases phase_eq : process.daemon.phase with
  | running => exact from_running phase_eq
  | dispatching key text =>
      obtain ⟨middle, reaches, running, -, same⟩ := reaches_of_dispatching phase_eq
      obtain ⟨reached, further, left | ⟨polling, unchanged⟩⟩ := from_running running
      · exact ⟨reached, reaches.trans further, .inl left⟩
      · exact ⟨reached, reaches.trans further, .inr ⟨polling, unchanged.trans same⟩⟩
  | _ =>
      rw [phase_eq] at within
      cases within

/-! ## Orders -/

theorem Polling.polls (polling : process.Polling) :
    Reaches strip reader parseToml path terminal unixSecs process
      (process.pollSignals parseToml path) := by
  have stepped : process.act strip reader parseToml path .pollSignals =
      some (process.pollSignals parseToml path) := by
    simp [act, polling.running, polling.arm]
  have unchanged : (process.pollSignals parseToml path).stream.clock = process.stream.clock ∧
      (process.pollSignals parseToml path).file = process.file := by
    rw [pollSignals]
    split
    · exact ⟨rfl, rfl⟩
    · exact ⟨rfl, rfl⟩
    · split <;> exact ⟨rfl, rfl⟩
  exact .single .pollSignals trivial polling.alive stepped unchanged.1 unchanged.2

theorem Polling.reload (polling : process.Polling) {channel : Channel Signal}
    (taken : process.signals.channel.recv = some (.reload, channel)) :
    ∃ reached, Reaches strip reader parseToml path terminal unixSecs process reached ∧
      reached.Polling ∧ reached.signals = { process.signals with channel } := by
  refine ⟨_, polling.polls, ?_⟩
  rw [pollSignals, taken]
  exact ⟨⟨(phase_reload _ _).trans polling.running, polling.arm⟩, rfl⟩

theorem Polling.leaves (polling : process.Polling)
    (orders : (∃ channel, process.signals.channel.recv = some (.shutdown, channel)) ∨
      process.signals.channel.finished = true) :
    ∃ reached, Reaches strip reader parseToml path terminal unixSecs process reached ∧
      reached.daemon.phase.inLoop = false := by
  refine ⟨_, polling.polls, ?_⟩
  obtain ⟨channel, taken⟩ | finished := orders
  · rw [pollSignals, taken]
    rfl
  · have empty : process.signals.channel.recv = none := by
      simp only [Channel.finished, Bool.and_eq_true, List.isEmpty_iff] at finished
      exact Channel.recv_eq_none_iff.mpr finished.1
    simp only [pollSignals, empty, finished, if_true]
    rfl

/-- A shutdown order at the head of the channel is obeyed at once. -/
theorem Polling.obeys_order (polling : process.Polling) {rest : List Signal}
    (items_eq : process.signals.channel.items = .shutdown :: rest) :
    ∃ reached, Reaches strip reader parseToml path terminal unixSecs process reached ∧
      reached.daemon.phase.inLoop = false := by
  obtain ⟨channel, taken, -⟩ := Channel.exists_recv_of_items items_eq
  exact polling.leaves (.inl ⟨channel, taken⟩)

/-- An order in the hand of the signal task gets into an empty channel. -/
theorem Polling.passes (polling : process.Polling) (sound : process.signals.Sound)
    (empty : process.signals.channel.items = []) {signal : Signal}
    (sending : process.signals.phase = .sending signal) :
    ∃ reached, Reaches strip reader parseToml path terminal unixSecs process reached ∧
      reached.Polling ∧ reached.signals.channel.items = [signal] ∧
        reached.signals.pending = process.signals.pending ∧
          (signal = .reload → reached.signals.phase = .waiting) := by
  have room : ¬ process.signals.channel.Full := by
    simp [Channel.Full, empty, sound.capacity, SignalTask.capacity]
  obtain ⟨channel, sent⟩ := (Channel.trySend_isOk_iff signal).mpr ⟨sound.receiving, room⟩
  obtain ⟨-, -, -, -, items_eq, -⟩ := Channel.trySend_ok sent
  rw [empty, List.nil_append] at items_eq
  cases signal with
  | reload =>
      refine ⟨{ process with signals := { process.signals with channel, phase := .waiting } },
        .single (.signal .send) trivial polling.alive ?_ rfl rfl,
        ⟨polling.running, polling.arm⟩, items_eq, rfl, fun _ => rfl⟩
      simp [act, SignalTask.step, sending, SignalTask.send, sent]
  | shutdown =>
      refine ⟨{ process with signals := ({ process.signals with channel }.finish) },
        .single (.signal .send) trivial polling.alive ?_ rfl rfl,
        ⟨polling.running, polling.arm⟩, items_eq, rfl, fun other => (by cases other)⟩
      simp [act, SignalTask.step, sending, SignalTask.send, sent]

/-- A pending signal gets into an empty channel. -/
theorem Polling.takes (polling : process.Polling) (sound : process.signals.Sound)
    (empty : process.signals.channel.items = []) (waiting : process.signals.phase = .waiting)
    {kind : SignalKind} (pending : process.signals.pending kind = true) :
    ∃ reached, Reaches strip reader parseToml path terminal unixSecs process reached ∧
      reached.Polling ∧ reached.signals.channel.items = [kind.order] := by
  have moved : process.signals.step (.take kind) = some (process.signals.take kind) := by
    simp [SignalTask.step, waiting, pending]
  have took : Reaches strip reader parseToml path terminal unixSecs process
      { process with signals := process.signals.take kind } :=
    .single (.signal (.take kind)) trivial polling.alive (by rw [act, moved]; rfl) rfl rfl
  have still : Polling { process with signals := process.signals.take kind } :=
    ⟨polling.running, polling.arm⟩
  obtain ⟨reached, passes, polls, items, -⟩ :=
    still.passes (sound.step (SignalTask.taskStep_of_step moved)) empty rfl
  exact ⟨reached, took.trans passes, polls, items⟩

end Process

end Loraterm
