import Loraterm.ProcessSignals
import Loraterm.StreamShutdown

/-!
# What ends the process

The loop is left when the process was asked to end.  It is also left when a signal handler cannot
be installed, when parsing panics on a frame, and when a session is spawned with an input channel
without slots.  No failure of the companion, no message, no reload and no session ends it.
-/

namespace Loraterm

open Utf8Text Mpsc WatchChannel Execution

namespace SseStream

variable {reader : JsonReader} {stream next : SseStream} {action : StreamAction}

/-- Why the task ended. -/
structure Settled (reader : JsonReader) (stream : SseStream) : Prop where
  closed : stream.events.sending = false → stream.phase.isOver = true
  returned : stream.phase = .returned →
    stream.shutdown.value = true ∨ stream.events.receiving = false
  panicked : stream.phase = .panicked → ∃ frame ∈ stream.frames, frame.event reader = none

theorem Settled.step (settled : stream.Settled reader)
    (stepped : StreamStep reader stream action next) : next.Settled reader := by
  have keep : next.events.sending = stream.events.sending → stream.phase.isOver = false →
      next.phase.isOver = false → next.Settled reader := by
    intro same alive still
    refine ⟨fun closed => ?_, fun returned => ?_, fun panicked => ?_⟩
    · rw [same] at closed
      rw [settled.closed closed] at alive
      cases alive
    · rw [returned] at still
      cases still
    · rw [panicked] at still
      cases still
  cases stepped with
  | left at_top told => exact ⟨fun _ => rfl, fun _ => .inl told, fun other => (by cases other)⟩
  | requested at_top untold => exact keep rfl (by rw [at_top]; rfl) rfl
  | granted connecting => exact keep rfl (by rw [connecting]; rfl) rfl
  | refused connecting => exact keep rfl (by rw [connecting]; rfl) rfl
  | undisturbed selecting waits => exact keep rfl (by rw [selecting]; rfl) rfl
  | stopped selecting changed told =>
      exact ⟨fun _ => rfl, fun _ => .inl told, fun other => (by cases other)⟩
  | disturbed selecting changed untold => exact keep rfl (by rw [selecting]; rfl) rfl
  | @accepted since random frame listening =>
      rw [accept] at keep ⊢
      cases parsed : frameEvent reader frame.name frame.data with
      | none =>
          refine ⟨fun _ => rfl, fun other => (by cases other), fun _ => ⟨frame, ?_, parsed⟩⟩
          exact List.mem_append_right _ List.mem_cons_self
      | some event =>
          rw [parsed] at keep
          exact keep rfl (by rw [listening]; rfl) rfl
  | dropped listening => exact keep rfl (by rw [listening]; rfl) rfl
  | silent listening => exact keep rfl (by rw [listening]; rfl) rfl
  | handed handing sent =>
      exact keep (Channel.trySend_ok sent).2.2.2.2.2.2.1 (by rw [handing]; rfl) rfl
  | ignored handing closed => exact keep rfl (by rw [handing]; rfl) rfl
  | disconnected handing closed =>
      exact ⟨fun _ => rfl, fun _ => .inr closed, fun other => (by cases other)⟩
  | woken sleeping past => exact keep rfl (by rw [sleeping]; rfl) rfl
  | roused sleeping changed untold => exact keep rfl (by rw [sleeping]; rfl) rfl
  | noticed sleeping changed told =>
      exact ⟨fun _ => rfl, fun _ => .inl told, fun other => (by cases other)⟩
  | waited duration => exact ⟨settled.closed, settled.returned, settled.panicked⟩
  | received taken =>
      obtain ⟨-, -, -, -, sending_eq, receiving_eq⟩ := Channel.recv_eq_some taken
      refine ⟨?_, ?_, settled.panicked⟩
      · rw [sending_eq]
        exact settled.closed
      · rw [receiving_eq]
        exact settled.returned
  | asked => exact ⟨settled.closed, fun _ => .inl rfl, settled.panicked⟩

/-- The frames read stay read. -/
theorem frames_of_step (stepped : StreamStep reader stream action next) {frame : Frame}
    (read : frame ∈ stream.frames) : frame ∈ next.frames := by
  cases stepped with
  | accepted listening =>
      rw [accept]
      split <;> exact List.mem_append_left _ read
  | _ => exact read

/-- The task's own steps do not change what it was told. -/
theorem value_of_own (own : action.own = true) (stepped : StreamStep reader stream action next) :
    next.shutdown.value = stream.shutdown.value := by
  cases stepped with
  | stopped selecting changed told => exact Watch.value_of_changed changed
  | disturbed selecting changed untold => exact Watch.value_of_changed changed
  | roused sleeping changed untold => exact Watch.value_of_changed changed
  | noticed sleeping changed told => exact Watch.value_of_changed changed
  | accepted listening =>
      rw [accept]
      split <;> rfl
  | asked => cases own
  | _ => rfl

end SseStream

namespace Daemon

end Daemon

namespace Process

variable {strip : List UInt8 → List UInt8} {reader : JsonReader}
  {parseToml : Text → Except Text WhitelistFile} {path : Text} {process next : Process}
  {action : ProcessAction}

/-! ## The stream task in the process -/

/-- What a step of the process is to the stream task. -/
theorem stream_of_step (stepped : ProcessStep strip reader parseToml path process action next) :
    next.stream = process.stream ∨
      ∃ act, process.stream.step reader act = some next.stream := by
  cases stepped with
  | ordered => exact .inr ⟨.stop, rfl⟩
  | unsignalled => exact .inr ⟨.stop, rfl⟩
  | unfed => exact .inr ⟨.stop, rfl⟩
  | handled running polling taken =>
      exact .inr ⟨.receive, by simp [SseStream.step, taken]⟩
  | streamed own moved => exact .inr ⟨_, moved⟩
  | waited duration => exact .inr ⟨.wait duration, rfl⟩
  | _ => exact .inl rfl

/-- Why the loop was left. -/
def Cause (reader : JsonReader) (limits : LimitsConfig) (process : Process) : Prop :=
  process.signals.Asked ∨ (process.signals.handled = false ∧ process.signals.phase = .ended) ∨
    (∃ frame ∈ process.stream.frames, frame.event reader = none) ∨ limits.inboundChannelDepth = 0

theorem Cause.step {limits : LimitsConfig} (cause : Cause reader limits process)
    (stepped : ProcessStep strip reader parseToml path process action next) :
    Cause reader limits next := by
  obtain asked | ⟨unhandled, ended⟩ | ⟨frame, read, unparsed⟩ | depth := cause
  · left
    cases stepped with
    | signalled moved =>
        have task_step := SignalTask.taskStep_of_step moved
        cases task_step <;> exact asked
    | @raised kind signals moved =>
        obtain ⟨-, rfl⟩ := SignalTask.raise_eq_some moved
        exact asked.imp (SignalTask.update_true_of_true kind) (SignalTask.update_true_of_true kind)
    | _ => exact asked
  · right
    left
    cases stepped with
    | signalled moved =>
        have task_step := SignalTask.taskStep_of_step moved
        cases task_step <;> simp_all
    | raised moved => simp [SignalTask.raise, unhandled] at moved
    | _ => exact ⟨unhandled, ended⟩
  · right
    right
    left
    refine ⟨frame, ?_, unparsed⟩
    obtain same | ⟨act, moved⟩ := stream_of_step stepped
    · rw [same]
      exact read
    · exact SseStream.frames_of_step (SseStream.streamStep_of_step moved) read
  · exact .inr (.inr (.inr depth))

theorem untold_of_step (untold : process.stream.shutdown.value = false)
    (still : next.daemon.phase.inLoop = true)
    (stepped : ProcessStep strip reader parseToml path process action next) :
    next.stream.shutdown.value = false := by
  cases stepped with
  | ordered => cases still
  | unsignalled => cases still
  | unfed => cases still
  | streamed own moved =>
      rw [SseStream.value_of_own own (SseStream.streamStep_of_step moved)]
      exact untold
  | _ => exact untold

end Process

end Loraterm
