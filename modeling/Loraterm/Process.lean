import Loraterm.Daemon
import Loraterm.Signals
import Loraterm.SseStream

/-!
# The running process

The main loop, the stream task and the signal task run next to each other and talk through two
channels and a watch channel.  The biased select of the main loop is two steps: the signals are
polled first, then the events.  When the loop is left the stream task is told to stop, every peer is
told, and the main task waits for the stream task for at most ten seconds.  The whitelist file can
be edited at any time.
-/

namespace Loraterm

open Utf8Text Mpsc WatchChannel Execution

namespace Daemon

/-- `handle_sse_event` up to the send: only inbound direct messages are dispatched. -/
def handleSseEvent (daemon : Daemon) (event : SseEvent) (terminal : Option Terminal)
    (unixSecs : Nat) : Daemon :=
  match event with
  | .dmReceived dm => daemon.dispatch dm terminal unixSecs
  | .sentEcho _ => daemon
  | .other _ _ => daemon
  | .comment _ => daemon

/-- The main task has ended, and with it the process. -/
def isOver (daemon : Daemon) : Bool :=
  match daemon.phase with
  | .returned | .panicked => true
  | _ => false

/-- The event of a frame is handled as the frame is. -/
theorem frame_of_event {reader : JsonReader} {name data : Text} {event : SseEvent}
    (parsed : frameEvent reader name data = some event) (daemon : Daemon)
    (terminal : Option Terminal) (unixSecs : Nat) :
    daemon.frame reader name data terminal unixSecs =
      daemon.handleSseEvent event terminal unixSecs := by
  rw [frame, parsed]
  cases event <;> rfl

end Daemon

/-- Which arm of its select the main loop polls next. -/
inductive LoopArm
  | signals
  | events
  deriving DecidableEq, Repr

/-- The process from the start of its main loop on. -/
structure Process where
  daemon : Daemon
  arm : LoopArm
  stream : SseStream
  signals : SignalTask
  /-- What reading the whitelist file gives. -/
  file : Except Text Text
  /-- When the loop was left. -/
  leftAt : Nat

/-- The steps of the three tasks and of the sessions, and what the outside does. -/
inductive ProcessAction
  | pollSignals
  | pollEvents (terminal : Option Terminal) (unixSecs : Nat)
  | send (unixSecs : Nat)
  /-- The wait for the stream task is over. -/
  | finish
  | session (index : Nat) (action : SessionAction)
  | stream (action : StreamAction)
  | signal (action : SignalAction)
  | raise (kind : SignalKind)
  | edit (contents : Except Text Text)
  | wait (duration : Nat)

/-- Whether an action is a step of the main task. -/
def ProcessAction.ofMain : ProcessAction → Bool
  | .pollSignals | .pollEvents .. | .send _ | .finish => true
  | _ => false

namespace Process

/-- How long the main task waits for the stream task, in nanoseconds. -/
def patience : Nat := fromSecs 10

/-- The process as its main loop starts. -/
def new (limits : LimitsConfig) (chunking : ChunkingConfig) (whitelist : Whitelist) (logged : Bool)
    (file : Except Text Text) : Process where
  daemon := .new limits chunking whitelist
  arm := .signals
  stream := .new logged
  signals := .new
  file := file
  leftAt := 0

/-- Leave the loop: tell the stream task, then every peer. -/
def leave (process : Process) : Process :=
  { process with
    stream := { process.stream with shutdown := process.stream.shutdown.send true }
    daemon := process.daemon.stop
    leftAt := process.stream.clock }

variable (strip : List UInt8 → List UInt8) (reader : JsonReader)
  (parseToml : Text → Except Text WhitelistFile) (path : Text)

/-- The signal arm of the main loop. -/
def pollSignals (process : Process) : Process :=
  match process.signals.channel.recv with
  | some (.reload, channel) =>
      { process with
        signals := { process.signals with channel }
        daemon := process.daemon.reload (Whitelist.load parseToml path process.file) }
  | some (.shutdown, channel) => { process with signals := { process.signals with channel } }.leave
  | none =>
      if process.signals.channel.finished then process.leave
      else { process with arm := .events }

/-- The event arm of the main loop. -/
def pollEvents (process : Process) (terminal : Option Terminal) (unixSecs : Nat) : Process :=
  match process.stream.events.recv with
  | some (event, events) =>
      { process with
        stream := { process.stream with events }
        daemon := process.daemon.handleSseEvent event terminal unixSecs
        arm := .signals }
  | none =>
      if process.stream.events.finished then process.leave
      else { process with arm := .signals }

/-- A step of the main task through a step of the daemon. -/
def ofDaemon (process : Process) (action : DaemonAction) : Option Process :=
  (process.daemon.step strip reader action).map fun daemon => { process with daemon }

/-- The wait at the end: until the stream task has ended, or time is up. -/
def finish (process : Process) : Option Process :=
  if process.stream.phase.isOver = true ∨ process.leftAt + patience ≤ process.stream.clock then
    process.ofDaemon strip reader .finish
  else none

/-- One step of a process that has not ended. -/
def act (process : Process) : ProcessAction → Option Process
  | .pollSignals =>
      if process.daemon.phase = .running ∧ process.arm = .signals then
        some (process.pollSignals parseToml path)
      else none
  | .pollEvents terminal unixSecs =>
      if process.daemon.phase = .running ∧ process.arm = .events then
        some (process.pollEvents terminal unixSecs)
      else none
  | .send unixSecs => process.ofDaemon strip reader (.send unixSecs)
  | .finish => process.finish strip reader
  | .session index action => process.ofDaemon strip reader (.session index action)
  | .stream action =>
      if action.own = true then
        (process.stream.step reader action).map fun stream => { process with stream }
      else none
  | .signal action => (process.signals.step action).map fun signals => { process with signals }
  | .raise kind => (process.signals.raise kind).map fun signals => { process with signals }
  | .edit contents => some { process with file := contents }
  | .wait duration =>
      (process.stream.step reader (.wait duration)).map fun stream => { process with stream }

/-- One step. -/
def step (process : Process) (action : ProcessAction) : Option Process :=
  if process.daemon.isOver then none else process.act strip reader parseToml path action

/-! ## Kinds of steps -/

/-- The kinds of steps of the process. -/
inductive ProcessStep (process : Process) : ProcessAction → Process → Prop
  | reloaded {channel : Channel Signal} (running : process.daemon.phase = .running)
      (polling : process.arm = .signals)
      (taken : process.signals.channel.recv = some (.reload, channel)) :
      ProcessStep process .pollSignals
        { process with
          signals := { process.signals with channel }
          daemon := process.daemon.reload (Whitelist.load parseToml path process.file) }
  | ordered {channel : Channel Signal} (running : process.daemon.phase = .running)
      (polling : process.arm = .signals)
      (taken : process.signals.channel.recv = some (.shutdown, channel)) :
      ProcessStep process .pollSignals
        ({ process with signals := { process.signals with channel } }.leave)
  | unsignalled (running : process.daemon.phase = .running) (polling : process.arm = .signals)
      (finished : process.signals.channel.finished = true) :
      ProcessStep process .pollSignals process.leave
  | quiet (running : process.daemon.phase = .running) (polling : process.arm = .signals)
      (empty : process.signals.channel.recv = none) :
      ProcessStep process .pollSignals { process with arm := .events }
  | handled {event : SseEvent} {events : Channel SseEvent} {terminal : Option Terminal}
      {unixSecs : Nat} (running : process.daemon.phase = .running) (polling : process.arm = .events)
      (taken : process.stream.events.recv = some (event, events)) :
      ProcessStep process (.pollEvents terminal unixSecs)
        { process with
          stream := { process.stream with events }
          daemon := process.daemon.handleSseEvent event terminal unixSecs
          arm := .signals }
  | unfed {terminal : Option Terminal} {unixSecs : Nat} (running : process.daemon.phase = .running)
      (polling : process.arm = .events) (finished : process.stream.events.finished = true) :
      ProcessStep process (.pollEvents terminal unixSecs) process.leave
  | idle {terminal : Option Terminal} {unixSecs : Nat} (running : process.daemon.phase = .running)
      (polling : process.arm = .events) (empty : process.stream.events.recv = none) :
      ProcessStep process (.pollEvents terminal unixSecs) { process with arm := .signals }
  | sent {unixSecs : Nat} {daemon : Daemon}
      (moved : process.daemon.step strip reader (.send unixSecs) = some daemon) :
      ProcessStep process (.send unixSecs) { process with daemon }
  | finished {daemon : Daemon}
      (done : process.stream.phase.isOver = true ∨
        process.leftAt + patience ≤ process.stream.clock)
      (moved : process.daemon.step strip reader .finish = some daemon) :
      ProcessStep process .finish { process with daemon }
  | session {index : Nat} {action : SessionAction} {daemon : Daemon}
      (moved : process.daemon.step strip reader (.session index action) = some daemon) :
      ProcessStep process (.session index action) { process with daemon }
  | streamed {action : StreamAction} {stream : SseStream} (own : action.own = true)
      (moved : process.stream.step reader action = some stream) :
      ProcessStep process (.stream action) { process with stream }
  | signalled {action : SignalAction} {signals : SignalTask}
      (moved : process.signals.step action = some signals) :
      ProcessStep process (.signal action) { process with signals }
  | raised {kind : SignalKind} {signals : SignalTask}
      (moved : process.signals.raise kind = some signals) :
      ProcessStep process (.raise kind) { process with signals }
  | edited (contents : Except Text Text) :
      ProcessStep process (.edit contents) { process with file := contents }
  | waited (duration : Nat) :
      ProcessStep process (.wait duration)
        { process with
          stream := { process.stream with clock := process.stream.clock + duration } }

variable {strip reader parseToml path} {process next : Process} {action : ProcessAction}

theorem processStep_of_act (stepped : process.act strip reader parseToml path action = some next) :
    ProcessStep strip reader parseToml path process action next := by
  cases action with
  | pollSignals =>
      simp only [act] at stepped
      split at stepped
      · rename_i enabled
        obtain rfl := Option.some.inj stepped
        simp only [pollSignals]
        split
        · rename_i taken
          exact .reloaded enabled.1 enabled.2 taken
        · rename_i taken
          exact .ordered enabled.1 enabled.2 taken
        · rename_i empty
          split
          · rename_i finished
            exact .unsignalled enabled.1 enabled.2 finished
          · exact .quiet enabled.1 enabled.2 empty
      · cases stepped
  | pollEvents terminal unixSecs =>
      simp only [act] at stepped
      split at stepped
      · rename_i enabled
        obtain rfl := Option.some.inj stepped
        simp only [pollEvents]
        split
        · rename_i taken
          exact .handled enabled.1 enabled.2 taken
        · rename_i empty
          split
          · rename_i finished
            exact .unfed enabled.1 enabled.2 finished
          · exact .idle enabled.1 enabled.2 empty
      · cases stepped
  | send unixSecs =>
      obtain ⟨daemon, moved, rfl⟩ := Option.map_eq_some_iff.mp stepped
      exact .sent moved
  | finish =>
      simp only [act, finish] at stepped
      split at stepped
      · rename_i over_wait
        obtain ⟨daemon, moved, rfl⟩ := Option.map_eq_some_iff.mp stepped
        exact .finished over_wait moved
      · cases stepped
  | session index action =>
      obtain ⟨daemon, moved, rfl⟩ := Option.map_eq_some_iff.mp stepped
      exact .session moved
  | stream action =>
      simp only [act] at stepped
      split at stepped
      · rename_i own
        obtain ⟨stream, moved, rfl⟩ := Option.map_eq_some_iff.mp stepped
        exact .streamed own moved
      · cases stepped
  | signal action =>
      obtain ⟨signals, moved, rfl⟩ := Option.map_eq_some_iff.mp stepped
      exact .signalled moved
  | raise kind =>
      obtain ⟨signals, moved, rfl⟩ := Option.map_eq_some_iff.mp stepped
      exact .raised moved
  | edit contents =>
      obtain rfl := Option.some.inj stepped
      exact .edited contents
  | wait duration =>
      obtain rfl := Option.some.inj stepped
      exact .waited duration

/-- A step is taken by a process that has not ended. -/
theorem processStep_of_step (stepped : process.step strip reader parseToml path action = some next) :
    process.daemon.isOver = false ∧ ProcessStep strip reader parseToml path process action next := by
  simp only [step] at stepped
  split at stepped
  · cases stepped
  · rename_i alive
    exact ⟨by simpa using alive, processStep_of_act stepped⟩

end Process

end Loraterm
