import Loraterm.ProcessRefinement

/-!
# Signals and the main loop

The signal arm is polled before the event arm, so an order passes every waiting event.  A hangup is
answered by a reload of the file as it then is, unless the loop is left before.
-/

namespace Loraterm

open Utf8Text Mpsc WatchChannel Execution

/-- The main loop is not left. -/
def DaemonPhase.inLoop : DaemonPhase → Bool
  | .running | .dispatching .. => true
  | _ => false

/-- Steps of the loop until it polls again. -/
def DaemonPhase.toRunning : DaemonPhase → Nat
  | .dispatching .. => 1
  | _ => 0

/-- Steps of the loop until it polls the signals. -/
def LoopArm.toSignals : LoopArm → Nat
  | .signals => 0
  | .events => 2

theorem DaemonPhase.toRunning_le (phase : DaemonPhase) : phase.toRunning ≤ 1 := by
  cases phase <;> simp [toRunning]

theorem LoopArm.toSignals_le (arm : LoopArm) : arm.toSignals ≤ 2 := by
  cases arm <;> simp [toSignals]

/-- Whether an action is a step of the main loop. -/
def ProcessAction.ofLoop : ProcessAction → Bool
  | .pollSignals | .pollEvents .. | .send _ => true
  | _ => false

/-- Whether an action polls the events. -/
def ProcessAction.pollsEvents : ProcessAction → Bool
  | .pollEvents .. => true
  | _ => false

/-! ## The signal task next to the loop -/

namespace SignalTask

/-- The main loop was or is to be told to stop, or the task ended with its handlers installed. -/
def Orders (task : SignalTask) : Prop :=
  task.phase = .sending .shutdown ∨ .shutdown ∈ task.channel.items ∨
    (task.phase = .ended ∧ task.handled = true)

/-- A signal that asks the process to end arrived. -/
def Asked (task : SignalTask) : Prop :=
  task.raised .terminate = true ∨ task.raised .interrupt = true

/-- What holds of the signal task as long as the main task keeps the receiving end. -/
structure Sound (task : SignalTask) : Prop where
  receiving : task.channel.receiving = true
  capacity : task.channel.capacity = SignalTask.capacity
  handled : task.handled = true → task.phase ≠ .installing
  unhandled : task.handled = false → task.phase = .installing ∨ task.phase = .ended
  pending : ∀ kind, task.pending kind = true → task.handled = true ∧ task.raised kind = true
  ended : task.phase = .ended ↔ task.channel.sending = false
  asked : task.Orders → task.Asked

variable {task next : SignalTask} {action : SignalAction}

theorem sound_new : new.Sound where
  receiving := rfl
  capacity := rfl
  handled := by simp [new]
  unhandled := fun _ => .inl rfl
  pending := by simp [new]
  ended := by simp [new, Channel.empty]
  asked := by simp [Orders, new, Channel.empty]

theorem Sound.step (sound : task.Sound) (stepped : TaskStep task action next) : next.Sound := by
  cases stepped with
  | installed installing =>
      have unfinished : task.channel.sending = true := by
        by_contra finished
        have ended := sound.ended.mpr (by simpa using finished)
        rw [installing] at ended
        cases ended
      refine ⟨sound.receiving, sound.capacity, by simp, by simp, ?_, by simp [unfinished], ?_⟩
      · intro kind pending
        exact ⟨rfl, (sound.pending kind pending).2⟩
      · rintro (sending | waiting | ⟨ended, -⟩)
        · cases sending
        · exact sound.asked (.inr (.inl waiting))
        · cases ended
  | failed installing =>
      have unhandled : task.handled = false := by
        by_contra handled
        exact sound.handled (by simpa using handled) installing
      refine ⟨sound.receiving, sound.capacity, by simp [finish], by simp [finish], sound.pending,
        by simp [finish, Channel.dropSender], ?_⟩
      rintro (sending | waiting | ⟨-, handled⟩)
      · cases sending
      · exact sound.asked (.inr (.inl waiting))
      · rw [finish, unhandled] at handled
        cases handled
  | @took kind waiting pending =>
      have handled := (sound.pending kind pending).1
      have unfinished : task.channel.sending = true := by
        by_contra finished
        have ended := sound.ended.mpr (by simpa using finished)
        rw [waiting] at ended
        cases ended
      refine ⟨sound.receiving, sound.capacity, by simp [take], by simp [take, handled], ?_,
        by simp [take, unfinished], ?_⟩
      · intro other other_pending
        by_cases here : other = kind
        · subst here
          simp [take] at other_pending
        · exact sound.pending other (by simpa [take, Function.update_of_ne here] using other_pending)
      · have raised := (sound.pending kind pending).2
        rintro (sending | waiting | ⟨ended, -⟩)
        · cases kind with
          | hangup => cases sending
          | terminate => exact .inl raised
          | interrupt => exact .inr raised
        · exact sound.asked (.inr (.inl waiting))
        · cases ended
  | reloading sending sent =>
      obtain ⟨-, -, capacity_eq, -, items_eq, -, sending_eq, receiving_eq⟩ := Channel.trySend_ok sent
      have unended := sound.ended
      rw [sending] at unended
      refine ⟨receiving_eq.trans sound.receiving, capacity_eq.trans sound.capacity, by simp, ?_,
        sound.pending, by simpa [sending_eq] using unended, ?_⟩
      · intro unhandled
        obtain installing | ended := sound.unhandled unhandled
        · rw [sending] at installing
          cases installing
        · rw [sending] at ended
          cases ended
      · rintro (other | waiting | ⟨ended, -⟩)
        · cases other
        · rw [items_eq] at waiting
          exact sound.asked (.inr (.inl (by simpa using waiting)))
        · cases ended
  | stopping sending sent =>
      obtain ⟨-, -, capacity_eq, -, -, -, -, receiving_eq⟩ := Channel.trySend_ok sent
      exact ⟨receiving_eq.trans sound.receiving, capacity_eq.trans sound.capacity, by simp [finish],
        by simp [finish], sound.pending, by simp [finish, Channel.dropSender],
        fun _ => sound.asked (.inl sending)⟩
  | refused sending closed =>
      rw [sound.receiving] at closed
      cases closed

theorem Sound.raise {kind : SignalKind} (sound : task.Sound)
    (raised : task.raise kind = some next) : next.Sound := by
  obtain ⟨handled, rfl⟩ := raise_eq_some raised
  refine ⟨sound.receiving, sound.capacity, sound.handled, sound.unhandled, ?_, sound.ended, ?_⟩
  · intro other pending
    refine ⟨handled, ?_⟩
    by_cases here : other = kind
    · rw [here]
      exact Function.update_self ..
    · have before : task.pending other = true := by
        simpa [Function.update_of_ne here] using pending
      exact update_true_of_true kind (sound.pending other before).2
  · intro orders
    exact (sound.asked orders).imp (update_true_of_true kind) (update_true_of_true kind)

/-- The main task takes an order. -/
theorem Sound.recv {signal : Signal} {channel : Channel Signal} (sound : task.Sound)
    (taken : task.channel.recv = some (signal, channel)) : Sound { task with channel } := by
  obtain ⟨items_eq, capacity_eq, -, -, sending_eq, receiving_eq⟩ := Channel.recv_eq_some taken
  refine ⟨receiving_eq.trans sound.receiving, capacity_eq.trans sound.capacity, sound.handled,
    sound.unhandled, sound.pending, by rw [sending_eq]; exact sound.ended, ?_⟩
  rintro (sending | waiting | ended)
  · exact sound.asked (.inl sending)
  · exact sound.asked (.inr (.inl (by rw [items_eq]; exact List.mem_cons_of_mem _ waiting)))
  · exact sound.asked (.inr (.inr ended))

end SignalTask

namespace Process

variable {strip : List UInt8 → List UInt8} {reader : JsonReader}
  {parseToml : Text → Except Text WhitelistFile} {path : Text} {process next final : Process}
  {action : ProcessAction} {later : List ProcessAction}

/-- What a step does to the signal task. -/
theorem signals_of_step (stepped : ProcessStep strip reader parseToml path process action next) :
    next.signals = process.signals ∨
      (∃ signal channel, action = .pollSignals ∧
        process.signals.channel.recv = some (signal, channel) ∧
          next.signals = { process.signals with channel }) ∨
        (∃ act, action = .signal act ∧ SignalTask.TaskStep process.signals act next.signals) ∨
          ∃ kind, action = .raise kind ∧ process.signals.raise kind = some next.signals := by
  cases stepped with
  | reloaded running polling taken => exact .inr (.inl ⟨_, _, rfl, taken, rfl⟩)
  | ordered running polling taken => exact .inr (.inl ⟨_, _, rfl, taken, rfl⟩)
  | signalled moved => exact .inr (.inr (.inl ⟨_, rfl, SignalTask.taskStep_of_step moved⟩))
  | raised moved => exact .inr (.inr (.inr ⟨_, rfl, moved⟩))
  | _ => exact .inl rfl

theorem sound_signals_of_step (sound : process.signals.Sound)
    (stepped : ProcessStep strip reader parseToml path process action next) : next.signals.Sound := by
  obtain same | ⟨signal, channel, -, taken, now⟩ | ⟨act, -, task_step⟩ | ⟨kind, -, raised⟩ :=
    signals_of_step stepped
  · rw [same]
    exact sound
  · rw [now]
    exact sound.recv taken
  · exact sound.step task_step
  · exact sound.raise raised

theorem sound_signals_of_run {limits : LimitsConfig} {chunking : ChunkingConfig}
    {whitelist : Whitelist} {logged : Bool} {file : Except Text Text} {actions : List ProcessAction}
    (ran : run (step strip reader parseToml path) (new limits chunking whitelist logged file)
      actions = some process) : process.signals.Sound :=
  @invariant_of_run _ _ _ _ _ (fun process => process.signals.Sound)
    (fun _ _ _ sound stepped => sound_signals_of_step sound (processStep_of_step stepped).2) _ ran
    SignalTask.sound_new

/-! ## An order in the channel -/

/-- Steps of the loop until it takes the first order of a kind. -/
def stepsTo (signal : Signal) (process : Process) : Nat :=
  process.signals.channel.items.idxOf signal + 1 + process.arm.toSignals +
    process.daemon.phase.toRunning

theorem stepsTo_le (sound : process.signals.Sound) {signal : Signal}
    (waiting : signal ∈ process.signals.channel.items) : stepsTo signal process ≤ 7 := by
  have position := List.idxOf_lt_length_iff.mpr waiting
  have bounded := process.signals.channel.bounded
  rw [sound.capacity, SignalTask.capacity] at bounded
  have arm := process.arm.toSignals_le
  have phase := process.daemon.phase.toRunning_le
  rw [stepsTo]
  omega

theorem phase_reload (daemon : Daemon) (loaded : Except ConfigError Whitelist) :
    (daemon.reload loaded).phase = daemon.phase := by
  cases loaded with
  | error error => rfl
  | ok whitelist => exact Daemon.phase_reload daemon whitelist

theorem phase_of_session {daemon after : Daemon} {index : Nat} {act : SessionAction}
    (moved : daemon.step strip reader (.session index act) = some after) :
    after.phase = daemon.phase := by
  simp only [Daemon.step] at moved
  split at moved
  · obtain ⟨session, -, moved⟩ := Option.bind_eq_some_iff.mp moved
    obtain ⟨now, -, rfl⟩ := Option.map_eq_some_iff.mp moved
    rfl
  · cases moved

theorem phase_of_send {daemon after : Daemon} {unixSecs : Nat}
    (moved : daemon.step strip reader (.send unixSecs) = some after) :
    (∃ key text, daemon.phase = .dispatching key text) ∧ after.phase = .running := by
  simp only [Daemon.step] at moved
  split at moved
  · rename_i key text dispatching
    obtain rfl := Option.some.inj moved
    refine ⟨⟨key, text, dispatching⟩, ?_⟩
    rw [Daemon.send]
    split <;> rfl
  · cases moved

theorem phase_of_finish {daemon after : Daemon}
    (moved : daemon.step strip reader .finish = some after) :
    daemon.phase = .closing ∧ after.phase = .returned := by
  simp only [Daemon.step] at moved
  split at moved
  · rename_i closing
    obtain rfl := Option.some.inj moved
    exact ⟨closing, rfl⟩
  · cases moved

/-- The steps of the loop are taken before it is left. -/
theorem inLoop_of_ofLoop (stepped : ProcessStep strip reader parseToml path process action next)
    (of_loop : action.ofLoop = true) : process.daemon.phase.inLoop = true := by
  have running_in : process.daemon.phase = .running → process.daemon.phase.inLoop = true := by
    intro running
    rw [running]
    rfl
  cases stepped with
  | reloaded running => exact running_in running
  | ordered running => exact running_in running
  | unsignalled running => exact running_in running
  | quiet running => exact running_in running
  | handled running => exact running_in running
  | unfed running => exact running_in running
  | idle running => exact running_in running
  | sent moved =>
      obtain ⟨⟨key, text, dispatching⟩, -⟩ := phase_of_send moved
      rw [dispatching]
      rfl
  | _ => cases of_loop

/-- A loop that was left is not entered again. -/
theorem inLoop_before (stepped : ProcessStep strip reader parseToml path process action next)
    (still : next.daemon.phase.inLoop = true) : process.daemon.phase.inLoop = true := by
  by_cases of_loop : action.ofLoop = true
  · exact inLoop_of_ofLoop stepped of_loop
  · cases stepped with
    | finished done moved =>
        rw [(phase_of_finish moved).2] at still
        cases still
    | session moved =>
        rw [phase_of_session moved] at still
        exact still
    | streamed => exact still
    | signalled => exact still
    | raised => exact still
    | edited => exact still
    | waited => exact still
    | _ => exact (of_loop rfl).elim

/-- Where nothing but the end of the channel changes, an order is as far away as it was. -/
theorem stepsTo_of_same {signal : Signal} {more : List Signal}
    (waiting : signal ∈ process.signals.channel.items)
    (items : next.signals.channel.items = process.signals.channel.items ++ more)
    (arm : next.arm = process.arm) (phase : next.daemon.phase = process.daemon.phase) :
    signal ∈ next.signals.channel.items ∧ stepsTo signal next = stepsTo signal process := by
  refine ⟨by rw [items]; exact List.mem_append_left _ waiting, ?_⟩
  rw [stepsTo, stepsTo, items, arm, phase, List.idxOf_append_of_mem waiting]

theorem items_of_taskStep {task after : SignalTask} {act : SignalAction}
    (stepped : SignalTask.TaskStep task act after) :
    ∃ more, after.channel.items = task.channel.items ++ more := by
  cases stepped with
  | reloading sending sent =>
      obtain ⟨-, -, -, -, items_eq, -⟩ := Channel.trySend_ok sent
      exact ⟨_, items_eq⟩
  | stopping sending sent =>
      obtain ⟨-, -, -, -, items_eq, -⟩ := Channel.trySend_ok sent
      exact ⟨_, items_eq⟩
  | _ => exact ⟨[], (List.append_nil _).symm⟩

/-- Every step of the loop brings it nearer to an order in the channel, unless it takes the order or
leaves; no other step takes it farther away. -/
theorem stepsTo_of_step {signal : Signal}
    (stepped : ProcessStep strip reader parseToml path process action next)
    (waiting : signal ∈ process.signals.channel.items) :
    (action = .pollSignals ∧ ∃ channel, process.signals.channel.recv = some (signal, channel)) ∨
      next.daemon.phase.inLoop = false ∨
        (signal ∈ next.signals.channel.items ∧
          stepsTo signal next + (if action.ofLoop then 1 else 0) ≤ stepsTo signal process) := by
  have unmoved : ∀ more, next.signals.channel.items = process.signals.channel.items ++ more →
      next.arm = process.arm → next.daemon.phase = process.daemon.phase → action.ofLoop = false →
        signal ∈ next.signals.channel.items ∧
          stepsTo signal next + (if action.ofLoop then 1 else 0) ≤ stepsTo signal process := by
    intro more items arm phase other
    obtain ⟨still, same⟩ := stepsTo_of_same waiting items arm phase
    exact ⟨still, by simp [same, other]⟩
  have nothing_more : process.signals.channel.items = process.signals.channel.items ++ [] :=
    (List.append_nil _).symm
  cases stepped with
  | @reloaded channel running polling taken =>
      obtain ⟨items_eq, -⟩ := Channel.recv_eq_some taken
      cases signal with
      | reload => exact .inl ⟨rfl, channel, taken⟩
      | shutdown =>
          refine .inr (.inr ⟨?_, ?_⟩)
          · simpa [items_eq] using waiting
          · simp only [stepsTo, items_eq, phase_reload]
            simp [ProcessAction.ofLoop]
  | ordered => exact .inr (.inl rfl)
  | unsignalled => exact .inr (.inl rfl)
  | quiet running polling empty =>
      rw [Channel.recv_eq_none_iff.mp empty] at waiting
      cases waiting
  | @handled event events terminal unixSecs running polling taken =>
      refine .inr (.inr ⟨waiting, ?_⟩)
      have dispatched := (process.daemon.handleSseEvent event terminal unixSecs).phase.toRunning_le
      have before : stepsTo signal process = process.signals.channel.items.idxOf signal + 3 := by
        rw [stepsTo, polling, running]
        rfl
      rw [before]
      simp only [stepsTo, LoopArm.toSignals, ProcessAction.ofLoop, if_true]
      omega
  | unfed => exact .inr (.inl rfl)
  | idle running polling empty =>
      refine .inr (.inr ⟨waiting, ?_⟩)
      simp [stepsTo, polling, LoopArm.toSignals, ProcessAction.ofLoop]
  | sent moved =>
      obtain ⟨⟨key, text, dispatching⟩, running⟩ := phase_of_send moved
      refine .inr (.inr ⟨waiting, ?_⟩)
      simp [stepsTo, dispatching, running, DaemonPhase.toRunning, ProcessAction.ofLoop]
  | finished done moved =>
      right
      left
      rw [(phase_of_finish moved).2]
      rfl
  | session moved =>
      exact .inr (.inr (unmoved [] nothing_more rfl (phase_of_session moved) rfl))
  | signalled moved =>
      obtain ⟨more, items⟩ := items_of_taskStep (SignalTask.taskStep_of_step moved)
      exact .inr (.inr (unmoved more items rfl rfl rfl))
  | @raised kind signals moved =>
      have same : signals.channel = process.signals.channel := by
        simp only [SignalTask.raise] at moved
        split at moved
        · obtain rfl := Option.some.inj moved
          rfl
        · cases moved
      exact .inr (.inr (unmoved [] (by rw [same, List.append_nil]) rfl rfl rfl))
  | _ => exact .inr (.inr (unmoved [] nothing_more rfl rfl rfl))

/-! ## Shutdown -/

/-- Events the loop still takes when an order waits. -/
def toTake (process : Process) : Nat :=
  if process.daemon.phase.inLoop = true ∧ process.arm = .events then 1 else 0

theorem toTake_le (process : Process) : process.toTake ≤ 1 := by
  rw [toTake]
  split
  · exact Nat.le_refl 1
  · exact Nat.zero_le 1

theorem toTake_of_signals (polling : process.arm = .signals) : process.toTake = 0 := by
  simp [toTake, polling]

/-- While an order waits, at most the event arm that is polled next takes an event. -/
theorem taken_of_step {signal : Signal}
    (stepped : ProcessStep strip reader parseToml path process action next)
    (waiting : process.daemon.phase.inLoop = true → signal ∈ process.signals.channel.items) :
    next.stream.events.taken.length + next.toTake ≤
      process.stream.events.taken.length + process.toTake := by
  have kept : next.stream.events.taken = process.stream.events.taken →
      (next.daemon.phase.inLoop = true → next.arm = .events → process.arm = .events) →
        next.stream.events.taken.length + next.toTake ≤
          process.stream.events.taken.length + process.toTake := by
    intro same arm
    rw [same]
    by_cases polling : next.daemon.phase.inLoop = true ∧ next.arm = .events
    · have before := inLoop_before stepped polling.1
      rw [toTake, toTake, if_pos polling, if_pos ⟨before, arm polling.1 polling.2⟩]
    · rw [toTake, if_neg polling]
      exact Nat.le_add_right _ _
  have stays : next.stream.events.taken = process.stream.events.taken → next.arm = process.arm →
      next.stream.events.taken.length + next.toTake ≤
        process.stream.events.taken.length + process.toTake := by
    intro same arm
    exact kept same fun _ polling => arm ▸ polling
  cases stepped with
  | quiet running polling empty =>
      have waits := waiting (by rw [running]; rfl)
      rw [Channel.recv_eq_none_iff.mp empty] at waits
      cases waits
  | handled running polling taken =>
      obtain ⟨-, -, taken_eq, -⟩ := Channel.recv_eq_some taken
      have before : process.toTake = 1 := by simp [toTake, running, polling, DaemonPhase.inLoop]
      rw [toTake_of_signals rfl, before, taken_eq]
      exact (List.length_append ..).le
  | idle running polling empty => exact kept rfl fun _ polls => by cases polls
  | streamed own moved =>
      exact stays (SseStream.taken_of_own own (SseStream.streamStep_of_step moved)) rfl
  | _ => exact stays rfl rfl

/-- As long as the loop is not left, an order to shut down waits. -/
def Ordered (process : Process) : Prop :=
  process.daemon.phase.inLoop = true → .shutdown ∈ process.signals.channel.items

/-- Steps of the loop until it is left. -/
def toLeave (process : Process) : Nat :=
  if process.daemon.phase.inLoop then stepsTo .shutdown process else 0

theorem toLeave_le (sound : process.signals.Sound) (ordered : process.Ordered) :
    process.toLeave ≤ 7 := by
  rw [toLeave]
  split
  · rename_i within
    exact stepsTo_le sound (ordered within)
  · exact Nat.zero_le 7

theorem ordered_of_step (ordered : process.Ordered)
    (stepped : ProcessStep strip reader parseToml path process action next) :
    next.Ordered ∧ next.toLeave + (if action.ofLoop then 1 else 0) ≤ process.toLeave := by
  have left : next.daemon.phase.inLoop = false →
      next.Ordered ∧ next.toLeave + (if action.ofLoop then 1 else 0) ≤ process.toLeave := by
    intro left
    refine ⟨fun still => (by rw [left] at still; cases still), ?_⟩
    by_cases of_loop : action.ofLoop = true
    · have within := inLoop_of_ofLoop stepped of_loop
      simp only [toLeave, left, within, of_loop, stepsTo, if_true, Bool.false_eq_true, if_false]
      omega
    · simp [toLeave, left, of_loop]
  cases after : next.daemon.phase.inLoop with
  | false => exact left after
  | true =>
      have within := inLoop_before stepped after
      obtain ⟨rfl, channel, taken⟩ | gone | ⟨still, nearer⟩ :=
        stepsTo_of_step stepped (ordered within)
      · cases stepped with
        | reloaded _ _ other =>
            rw [taken] at other
            cases other
        | ordered => cases after
        | unsignalled => cases after
        | quiet _ _ empty =>
            rw [taken] at empty
            cases empty
      · exact left gone
      · refine ⟨fun _ => still, ?_⟩
        rw [toLeave, toLeave, if_pos after, if_pos within]
        exact nearer

/-- The loop never blocks. -/
theorem exists_loop_step (within : process.daemon.phase.inLoop = true) :
    ∃ action, action.ofLoop = true ∧
      (process.step strip reader parseToml path action).isSome = true := by
  cases phase_eq : process.daemon.phase with
  | running =>
      cases arm_eq : process.arm with
      | signals => exact ⟨.pollSignals, rfl, by simp [step, act, Daemon.isOver, phase_eq, arm_eq]⟩
      | events =>
          exact ⟨.pollEvents none 0, rfl, by simp [step, act, Daemon.isOver, phase_eq, arm_eq]⟩
  | dispatching key text =>
      exact ⟨.send 0, rfl, by simp [step, act, ofDaemon, Daemon.isOver, Daemon.step, phase_eq]⟩
  | _ =>
      rw [phase_eq] at within
      cases within

/-- In every run, once an order to shut down is in the signal channel, however many events wait: the
loop takes at most seven more steps and at most one more event, and as long as it is not left, the
order waits and the loop can take a step. -/
theorem shutdown_overtakes_events {limits : LimitsConfig} {chunking : ChunkingConfig}
    {whitelist : Whitelist} {logged : Bool} {file : Except Text Text} {actions : List ProcessAction}
    (ran : run (step strip reader parseToml path) (new limits chunking whitelist logged file)
      actions = some process)
    (waiting : .shutdown ∈ process.signals.channel.items)
    (ran_on : run (step strip reader parseToml path) process later = some final) :
    later.countP ProcessAction.ofLoop ≤ 7 ∧
      final.stream.events.taken.length ≤ process.stream.events.taken.length + 1 ∧
        (final.daemon.phase.inLoop = true → .shutdown ∈ final.signals.channel.items ∧
          ∃ action, action.ofLoop = true ∧
            (final.step strip reader parseToml path action).isSome = true) := by
  let Bounded (state : Process) : Prop :=
    state.Ordered ∧ state.stream.events.taken.length + state.toTake ≤
      process.stream.events.taken.length + process.toTake
  have preserved : ∀ state action next, Bounded state →
      state.step strip reader parseToml path action = some next → Bounded next := by
    rintro state action next ⟨ordered, taken⟩ stepped
    have stepped := (processStep_of_step stepped).2
    exact ⟨(ordered_of_step ordered stepped).1, (taken_of_step stepped ordered).trans taken⟩
  have initially : Bounded process := ⟨fun _ => waiting, Nat.le_refl _⟩
  obtain ⟨ordered, taken⟩ := invariant_of_run preserved ran_on initially
  refine ⟨?_, ?_, fun within => ⟨ordered within, exists_loop_step within⟩⟩
  · have counted : later.countP ProcessAction.ofLoop + final.toLeave ≤ process.toLeave :=
      @countP_le_rank _ _ _ process final Bounded ProcessAction.ofLoop toLeave preserved
        (fun _ _ _ bounded stepped =>
          (ordered_of_step bounded.1 (processStep_of_step stepped).2).2) later ran_on initially
    have at_most := toLeave_le (sound_signals_of_run ran) initially.1
    omega
  · have at_most := process.toTake_le
    omega

/-- A process with the sample peer. -/
def sample : Process := new .default .default Daemon.sampleWhitelist false (.ok [])

/-- A step of the sample process. -/
def sampleStep : Process → ProcessAction → Option Process :=
  step id Daemon.sampleReader (fun _ => .error []) []

/-- The stream task connects and hands a message of the sample peer over. -/
def sampleArrival : List ProcessAction :=
  [.stream .check, .stream (.respond (.status 200) 0), .stream .pollShutdown,
    .stream (.pollEvents (.frame { name := [], id := [], data := Daemon.sampleData }) 0),
    .stream .hand]

/-- The process is told to terminate. -/
def sampleTermination : List ProcessAction :=
  [.signal (.install none), .raise .terminate, .signal (.take .terminate), .signal .send]

/-- The loop is about to poll the events when the process is told to terminate. -/
theorem shutdown_overtakes_events_sample :
    ∃ process final,
      run sampleStep sample (sampleArrival ++ [.pollSignals] ++ sampleTermination) = some process ∧
        run sampleStep process
            [.pollEvents (some { inSize := 4096, outSize := 4096 }) 0, .send 0, .pollSignals] =
          some final ∧
        final.stream.events.taken.length ≤ process.stream.events.taken.length + 1 := by
  have ordered : (run sampleStep sample (sampleArrival ++ [.pollSignals] ++ sampleTermination)).map
      (fun process => process.signals.channel.items) = some [.shutdown] := by decide +kernel
  have completes : (run sampleStep sample (sampleArrival ++ [.pollSignals] ++ sampleTermination ++
      [.pollEvents (some { inSize := 4096, outSize := 4096 }) 0, .send 0, .pollSignals])).isSome =
        true := by
    decide +kernel
  obtain ⟨process, ran, items⟩ := Option.map_eq_some_iff.mp ordered
  obtain ⟨final, ran_all⟩ := Option.isSome_iff_exists.mp completes
  rw [run_append, ran, Option.bind_some] at ran_all
  have waiting : .shutdown ∈ process.signals.channel.items := by rw [items]; simp
  exact ⟨process, final, ran, ran_all, (shutdown_overtakes_events ran waiting ran_all).2.1⟩

end Process

end Loraterm
