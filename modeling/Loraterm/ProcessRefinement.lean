import Loraterm.EventFeed
import Loraterm.Process
import Loraterm.StreamOrder
import Loraterm.TrustBoundary

/-!
# The process runs the daemon

The daemon handles a frame at once, the process reads it in one task and handles its event later in
another.  Every run of the process is a run of the daemon all the same: the frames the daemon handles
are the first of those that were read, each once and in order, and the rest is on its way.
-/

namespace Loraterm

open Utf8Text Mpsc WatchChannel Execution

/-- The parts of a frame that are parsed. -/
def Frame.parts (frame : Frame) : Text × Text := (frame.name, frame.data)

/-- The frames a step of the daemon handles. -/
def DaemonAction.frames : DaemonAction → List (Text × Text)
  | .frame name data _ _ => [(name, data)]
  | _ => []

/-- A frame gives an event. -/
def Parses (reader : JsonReader) (frame : Text × Text) (event : SseEvent) : Prop :=
  frameEvent reader frame.1 frame.2 = some event

namespace SseStream

/-- The parsed parts of the frames read so far that give an event. -/
def parsedFrames (reader : JsonReader) (stream : SseStream) : List (Text × Text) :=
  (stream.frames.filter fun frame => (frame.event reader).isSome).map Frame.parts

/-- The events on their way to the main loop. -/
def passing (stream : SseStream) : List SseEvent := stream.events.items ++ stream.phase.inHand

variable {reader : JsonReader} {stream next : SseStream} {action : StreamAction}

theorem forwarded_eq_passing (receiving : stream.events.receiving = true) :
    stream.forwarded = stream.events.taken ++ stream.passing := by
  simp [forwarded, passing, Channel.accepted, stream.events.kept receiving]

/-- Only the main loop takes events. -/
theorem taken_of_own (own : action.own = true) (stepped : StreamStep reader stream action next) :
    next.events.taken = stream.events.taken := by
  cases stepped with
  | accepted listening =>
      rw [accept]
      split <;> rfl
  | handed handing sent => exact (Channel.trySend_ok sent).2.2.2.1
  | received taken => cases own
  | _ => rfl

/-- A step of the stream task passes on the event of the frame it reads, if it reads one. -/
theorem passing_of_own (receiving : stream.events.receiving = true) (own : action.own = true)
    (stepped : StreamStep reader stream action next) :
    next.events.receiving = true ∧
      ((next.frames = stream.frames ∧ next.passing = stream.passing) ∨
        ∃ frame, next.frames = stream.frames ++ [frame] ∧
          next.passing = stream.passing ++ (frame.event reader).toList) := by
  have same_taken := taken_of_own own stepped
  obtain keeps | ⟨frame, random, -, reads⟩ := keeps_or_reads receiving stepped
  · have still := keeps.receiving.trans receiving
    have forwarded := keeps.forwarded
    rw [forwarded_eq_passing receiving, forwarded_eq_passing still, same_taken] at forwarded
    exact ⟨still, .inl ⟨keeps.frames, List.append_cancel_left forwarded⟩⟩
  · have still := reads.receiving.trans receiving
    have forwarded := reads.forwarded
    rw [forwarded_eq_passing receiving, forwarded_eq_passing still, same_taken,
      List.append_assoc] at forwarded
    exact ⟨still, .inr ⟨frame, reads.frames, List.append_cancel_left forwarded⟩⟩

end SseStream

namespace Daemon

theorem streaming_handleSseEvent (daemon : Daemon) (event : SseEvent) (terminal : Option Terminal)
    (unixSecs : Nat) :
    (daemon.handleSseEvent event terminal unixSecs).streaming = daemon.streaming := by
  cases event with
  | dmReceived dm => exact streaming_dispatch daemon dm terminal unixSecs
  | _ => rfl

end Daemon

namespace Process

variable {strip : List UInt8 → List UInt8} {reader : JsonReader}
  {parseToml : Text → Except Text WhitelistFile} {path : Text}

/-- The daemon of the process took a schedule, and some frames are still on their way to it. -/
structure Mirrors (strip : List UInt8 → List UInt8) (reader : JsonReader)
    (parseToml : Text → Except Text WhitelistFile) (path : Text) (start : Daemon)
    (process : Process) (schedule : List DaemonAction) (waiting : List (Text × Text)) : Prop where
  ran : run (Daemon.step strip reader) start schedule = some process.daemon
  streaming : process.daemon.streaming = true
  receiving : process.stream.events.receiving = true
  frames : process.stream.parsedFrames reader = schedule.flatMap DaemonAction.frames ++ waiting
  waiting : List.Forall₂ (Parses reader) waiting process.stream.passing
  /-- What is loaded is what the whitelist file contained. -/
  loads : ∀ loaded, .reload loaded ∈ schedule →
    ∃ contents, loaded = Whitelist.load parseToml path contents

variable {start : Daemon} {process next : Process} {action : ProcessAction}
  {schedule : List DaemonAction} {waiting : List (Text × Text)}

/-- The daemon takes a step that handles no frame, and the stream stays as it is to the frames. -/
theorem Mirrors.daemon_step {act : DaemonAction}
    (mirrors : Mirrors strip reader parseToml path start process schedule waiting)
    (moved : process.daemon.step strip reader act = some next.daemon)
    (unread : ∀ name data terminal unixSecs, act ≠ .frame name data terminal unixSecs)
    (loads : ∀ loaded, act = .reload loaded →
      ∃ contents, loaded = Whitelist.load parseToml path contents)
    (same_events : next.stream.events = process.stream.events)
    (same_frames : next.stream.frames = process.stream.frames)
    (same_phase : next.stream.phase = process.stream.phase) :
    Mirrors strip reader parseToml path start next (schedule ++ [act]) waiting where
  ran := run_concat_eq_some.mpr ⟨process.daemon, mirrors.ran, moved⟩
  streaming := by
    rw [Daemon.streaming_of_step unread (Daemon.daemonStep_of_step moved), mirrors.streaming]
  receiving := by rw [same_events, mirrors.receiving]
  frames := by
    have nothing : act.frames = [] := by
      cases act with
      | frame name data terminal unixSecs => exact (unread name data terminal unixSecs rfl).elim
      | _ => rfl
    rw [SseStream.parsedFrames, same_frames, List.flatMap_append, List.flatMap_singleton, nothing,
      List.append_nil]
    exact mirrors.frames
  waiting := by
    rw [SseStream.passing, same_events, same_phase]
    exact mirrors.waiting
  loads := by
    intro loaded member
    obtain member | member := List.mem_append.mp member
    · exact mirrors.loads loaded member
    · exact loads loaded (List.mem_singleton.mp member).symm

/-- The daemon stays as it is, and so does the stream to the frames. -/
theorem Mirrors.keep (mirrors : Mirrors strip reader parseToml path start process schedule waiting)
    (same_daemon : next.daemon = process.daemon)
    (same_events : next.stream.events = process.stream.events)
    (same_frames : next.stream.frames = process.stream.frames)
    (same_phase : next.stream.phase = process.stream.phase) :
    Mirrors strip reader parseToml path start next schedule waiting where
  ran := by rw [same_daemon, mirrors.ran]
  streaming := by rw [same_daemon, mirrors.streaming]
  receiving := by rw [same_events, mirrors.receiving]
  frames := by
    rw [SseStream.parsedFrames, same_frames]
    exact mirrors.frames
  waiting := by
    rw [SseStream.passing, same_events, same_phase]
    exact mirrors.waiting
  loads := mirrors.loads

/-- The stream task takes a step: a frame that it reads joins those on their way. -/
theorem Mirrors.stream_step {act : StreamAction} {stream : SseStream}
    (mirrors : Mirrors strip reader parseToml path start process schedule waiting)
    (own : act.own = true) (moved : process.stream.step reader act = some stream) :
    ∃ waiting', Mirrors strip reader parseToml path start { process with stream } schedule
      waiting' := by
  obtain ⟨receiving, ⟨frames, passing⟩ | ⟨frame, frames, passing⟩⟩ :=
    SseStream.passing_of_own mirrors.receiving own (SseStream.streamStep_of_step moved)
  · refine ⟨waiting, mirrors.ran, mirrors.streaming, receiving, ?_, ?_, mirrors.loads⟩
    · rw [SseStream.parsedFrames, frames]
      exact mirrors.frames
    · rw [passing]
      exact mirrors.waiting
  · cases parsed : frame.event reader with
    | none =>
        rw [parsed, Option.toList_none, List.append_nil] at passing
        refine ⟨waiting, mirrors.ran, mirrors.streaming, receiving, ?_, ?_, mirrors.loads⟩
        · rw [SseStream.parsedFrames, frames, List.filter_append]
          simpa [parsed, SseStream.parsedFrames] using mirrors.frames
        · rw [passing]
          exact mirrors.waiting
    | some event =>
        rw [parsed, Option.toList_some] at passing
        refine ⟨waiting ++ [frame.parts], mirrors.ran, mirrors.streaming, receiving, ?_, ?_,
          mirrors.loads⟩
        · rw [SseStream.parsedFrames, frames, List.filter_append, List.map_append,
            ← SseStream.parsedFrames, mirrors.frames]
          simp [parsed]
        · rw [passing]
          exact List.rel_append mirrors.waiting (.cons parsed .nil)

/-- The event that the main loop takes is that of the first frame on its way. -/
theorem Mirrors.handles {event : SseEvent} {events : Channel SseEvent} {terminal : Option Terminal}
    {unixSecs : Nat}
    (mirrors : Mirrors strip reader parseToml path start process schedule waiting)
    (running : process.daemon.phase = .running)
    (taken : process.stream.events.recv = some (event, events)) :
    ∃ name data rest, waiting = (name, data) :: rest ∧
      List.Forall₂ (Parses reader) rest (events.items ++ process.stream.phase.inHand) ∧
        process.daemon.step strip reader (.frame name data terminal unixSecs) =
          some (process.daemon.handleSseEvent event terminal unixSecs) := by
  obtain ⟨items_eq, -, -, -, -, -⟩ := Channel.recv_eq_some taken
  have on_the_way := mirrors.waiting
  rw [SseStream.passing, items_eq, List.cons_append] at on_the_way
  cases on_the_way with
  | @cons frame _ rest _ parses others =>
      obtain ⟨name, data⟩ := frame
      refine ⟨name, data, rest, rfl, others, ?_⟩
      have frame_eq := Daemon.frame_of_event parses process.daemon terminal unixSecs
      simp only [Daemon.step, running, mirrors.streaming, and_self, if_true]
      exact congrArg some frame_eq

/-- The main loop takes an event: the daemon handles the first frame on its way. -/
theorem Mirrors.receive {event : SseEvent} {events : Channel SseEvent} {terminal : Option Terminal}
    {unixSecs : Nat}
    (mirrors : Mirrors strip reader parseToml path start process schedule waiting)
    (running : process.daemon.phase = .running)
    (taken : process.stream.events.recv = some (event, events)) :
    ∃ schedule' waiting', Mirrors strip reader parseToml path start
      { process with
        stream := { process.stream with events }
        daemon := process.daemon.handleSseEvent event terminal unixSecs
        arm := .signals } schedule' waiting' := by
  obtain ⟨name, data, rest, rfl, others, moved⟩ :=
    @Mirrors.handles _ _ _ _ _ _ _ _ event events terminal unixSecs mirrors running taken
  obtain ⟨-, -, -, -, -, receiving_eq⟩ := Channel.recv_eq_some taken
  refine ⟨schedule ++ [.frame name data terminal unixSecs], rest, ?_⟩
  exact
    { ran := run_concat_eq_some.mpr ⟨process.daemon, mirrors.ran, moved⟩
      streaming := (Daemon.streaming_handleSseEvent _ _ _ _).trans mirrors.streaming
      receiving := receiving_eq.trans mirrors.receiving
      frames := by
        have frames := mirrors.frames
        simp only [List.flatMap_append, List.flatMap_singleton, DaemonAction.frames,
          List.append_assoc, List.singleton_append]
        exact frames
      waiting := others
      loads := by
        intro loaded member
        obtain member | member := List.mem_append.mp member
        · exact mirrors.loads loaded member
        · cases List.mem_singleton.mp member }

theorem stop_moves (running : process.daemon.phase = .running) :
    process.daemon.step strip reader .stop = some process.daemon.stop := by
  simp [Daemon.step, running]

theorem reload_moves (running : process.daemon.phase = .running)
    (loaded : Except ConfigError Whitelist) :
    process.daemon.step strip reader (.reload loaded) = some (process.daemon.reload loaded) := by
  simp [Daemon.step, running]

/-- Leaving the loop stops the daemon. -/
theorem Mirrors.leave (mirrors : Mirrors strip reader parseToml path start process schedule waiting)
    (running : process.daemon.phase = .running) :
    Mirrors strip reader parseToml path start process.leave (schedule ++ [.stop]) waiting :=
  mirrors.daemon_step (stop_moves running) (by simp) (by simp) rfl rfl rfl

theorem Mirrors.step (mirrors : Mirrors strip reader parseToml path start process schedule waiting)
    (stepped : ProcessStep strip reader parseToml path process action next) :
    ∃ schedule' waiting', Mirrors strip reader parseToml path start next schedule' waiting' := by
  cases stepped with
  | reloaded running polling taken =>
      refine ⟨_, waiting, mirrors.daemon_step (reload_moves running _) (by simp) ?_ rfl rfl rfl⟩
      rintro loaded ⟨⟩
      exact ⟨process.file, rfl⟩
  | @ordered channel running polling taken =>
      have kept : Mirrors strip reader parseToml path start
          { process with signals := { process.signals with channel } } schedule waiting :=
        mirrors.keep rfl rfl rfl rfl
      exact ⟨_, waiting, kept.leave running⟩
  | unsignalled running polling finished => exact ⟨_, waiting, mirrors.leave running⟩
  | quiet running polling empty => exact ⟨schedule, waiting, mirrors.keep rfl rfl rfl rfl⟩
  | handled running polling taken => exact mirrors.receive running taken
  | unfed running polling finished => exact ⟨_, waiting, mirrors.leave running⟩
  | idle running polling empty => exact ⟨schedule, waiting, mirrors.keep rfl rfl rfl rfl⟩
  | sent moved => exact ⟨_, waiting, mirrors.daemon_step moved (by simp) (by simp) rfl rfl rfl⟩
  | finished done moved =>
      exact ⟨_, waiting, mirrors.daemon_step moved (by simp) (by simp) rfl rfl rfl⟩
  | session moved => exact ⟨_, waiting, mirrors.daemon_step moved (by simp) (by simp) rfl rfl rfl⟩
  | streamed own moved =>
      obtain ⟨waiting', still⟩ := mirrors.stream_step own moved
      exact ⟨schedule, waiting', still⟩
  | signalled moved => exact ⟨schedule, waiting, mirrors.keep rfl rfl rfl rfl⟩
  | raised moved => exact ⟨schedule, waiting, mirrors.keep rfl rfl rfl rfl⟩
  | edited contents => exact ⟨schedule, waiting, mirrors.keep rfl rfl rfl rfl⟩
  | waited duration => exact ⟨schedule, waiting, mirrors.keep rfl rfl rfl rfl⟩

/-- A step of the process leaves its daemon alone, or is a step of it; a session's step stays one. -/
theorem Mirrors.moves (mirrors : Mirrors strip reader parseToml path start process schedule waiting)
    (stepped : ProcessStep strip reader parseToml path process action next) :
    (next.daemon = process.daemon ∧ ∀ index own, action ≠ .session index own) ∨
      ∃ act, process.daemon.step strip reader act = some next.daemon ∧
        (∀ loaded, act = .reload loaded → loaded = Whitelist.load parseToml path process.file) ∧
          ∀ index own, act = .session index own ↔ action = .session index own := by
  cases stepped with
  | reloaded running polling taken =>
      exact .inr ⟨_, reload_moves running _, by rintro loaded ⟨⟩; rfl, by simp⟩
  | ordered running polling taken => exact .inr ⟨_, stop_moves running, by simp, by simp⟩
  | unsignalled running polling finished => exact .inr ⟨_, stop_moves running, by simp, by simp⟩
  | unfed running polling finished => exact .inr ⟨_, stop_moves running, by simp, by simp⟩
  | @handled event events terminal unixSecs running polling taken =>
      obtain ⟨name, data, rest, -, -, moved⟩ := mirrors.handles running taken
      exact .inr ⟨_, moved, by simp, by simp⟩
  | sent moved => exact .inr ⟨_, moved, by simp, by simp⟩
  | finished done moved => exact .inr ⟨_, moved, by simp, by simp⟩
  | session moved => exact .inr ⟨_, moved, by simp, by simp⟩
  | _ => exact .inl ⟨rfl, by simp⟩

theorem mirrors_of_run {limits : LimitsConfig} {chunking : ChunkingConfig} {whitelist : Whitelist}
    {logged : Bool} {file : Except Text Text} {actions : List ProcessAction}
    (ran : run (step strip reader parseToml path) (new limits chunking whitelist logged file)
      actions = some process) :
    ∃ schedule waiting, Mirrors strip reader parseToml path (.new limits chunking whitelist) process
      schedule waiting := by
  have initially : Mirrors strip reader parseToml path (.new limits chunking whitelist)
      (new limits chunking whitelist logged file) [] [] :=
    ⟨rfl, rfl, rfl, rfl, .nil, by simp⟩
  refine @invariant_of_run _ _ _ _ _
    (fun process => ∃ schedule waiting, Mirrors strip reader parseToml path
      (.new limits chunking whitelist) process schedule waiting) ?_ _ ran ⟨[], [], initially⟩
  rintro state action next ⟨schedule, waiting, mirrors⟩ stepped
  exact mirrors.step (processStep_of_step stepped).2

/-- In every run of the process, in which reading, handling, reloading, shutting down and the sessions
interleave in any way, the daemon is in a state it reaches by a run of its own; the frames it handled
there are the first of those read that give an event, each once and in order, and the others are
those whose events are on their way; and every whitelist it loaded was read from the file. -/
theorem process_refines_daemon {limits : LimitsConfig} {chunking : ChunkingConfig}
    {whitelist : Whitelist} {logged : Bool} {file : Except Text Text} {actions : List ProcessAction}
    (ran : run (step strip reader parseToml path) (new limits chunking whitelist logged file)
      actions = some process) :
    ∃ schedule waiting,
      run (Daemon.step strip reader) (.new limits chunking whitelist) schedule =
          some process.daemon ∧
        process.stream.parsedFrames reader = schedule.flatMap DaemonAction.frames ++ waiting ∧
          List.Forall₂ (Parses reader) waiting
            (process.stream.events.items ++ process.stream.phase.inHand) ∧
            ∀ loaded, .reload loaded ∈ schedule →
              ∃ contents, loaded = Whitelist.load parseToml path contents := by
  obtain ⟨schedule, waiting, mirrors⟩ := mirrors_of_run ran
  exact ⟨schedule, waiting, mirrors.ran, mirrors.frames, mirrors.waiting, mirrors.loads⟩

/-- A frame arrives over a connection, is read, handed over and handled, and the text is sent on. -/
theorem process_refines_daemon_sample :
    ∃ process, run (step id Daemon.sampleReader (fun _ => .error []) [])
        (new .default .default Daemon.sampleWhitelist false (.ok []))
        [.stream .check, .stream (.respond (.status 200) 0), .stream .pollShutdown,
          .stream (.pollEvents (.frame { name := [], id := [], data := Daemon.sampleData }) 0),
          .stream .hand, .pollSignals, .pollEvents (some { inSize := 4096, outSize := 4096 }) 0,
          .send 0] = some process ∧
      ∃ schedule waiting,
        run (Daemon.step id Daemon.sampleReader) (.new .default .default Daemon.sampleWhitelist)
            schedule = some process.daemon ∧
          process.stream.parsedFrames Daemon.sampleReader =
            schedule.flatMap DaemonAction.frames ++ waiting := by
  have completes : (run (step id Daemon.sampleReader (fun _ => .error []) [])
      (new .default .default Daemon.sampleWhitelist false (.ok []))
      [.stream .check, .stream (.respond (.status 200) 0), .stream .pollShutdown,
        .stream (.pollEvents (.frame { name := [], id := [], data := Daemon.sampleData }) 0),
        .stream .hand, .pollSignals, .pollEvents (some { inSize := 4096, outSize := 4096 }) 0,
        .send 0]).isSome = true := by
    decide +kernel
  obtain ⟨process, ran⟩ := Option.isSome_iff_exists.mp completes
  obtain ⟨schedule, waiting, daemon_ran, frames, -⟩ := process_refines_daemon ran
  exact ⟨process, ran, schedule, waiting, daemon_ran, frames⟩

end Process

end Loraterm
