import Loraterm.Library.Execution
import Loraterm.SseStream

/-!
# Frames on their way to the main loop

Whatever becomes of the connections, the main loop takes the events of the frames that were read,
each once and in order.  A frame is kept from it only when it does not parse, which ends the stream
task; the raw log has the line even of that frame.
-/

namespace Loraterm

open Execution Mpsc WatchChannel Utf8Text

/-- The event of a frame. -/
def Frame.event (reader : JsonReader) (frame : Frame) : Option SseEvent :=
  frameEvent reader frame.name frame.data

/-- Nothing is in hand, and the task did not panic. -/
def StreamPhase.plain : StreamPhase → Bool
  | .handing .. | .panicked => false
  | _ => true

theorem StreamPhase.inHand_of_plain {phase : StreamPhase} (plain : phase.plain = true) :
    phase.inHand = [] := by
  cases phase with
  | handing => cases plain
  | _ => rfl

theorem StreamPhase.alive_of_plain {phase : StreamPhase} (plain : phase.plain = true) :
    phase ≠ .panicked := by
  rintro rfl
  cases plain

namespace SseStream

/-- The events handed to the channel, and the one in hand. -/
def forwarded (stream : SseStream) : List SseEvent :=
  stream.events.accepted ++ stream.phase.inHand

/-- No frame is read. -/
structure Keeps (stream next : SseStream) : Prop where
  receiving : next.events.receiving = stream.events.receiving
  frames : next.frames = stream.frames
  rawLog : next.rawLog = stream.rawLog
  forwarded : next.forwarded = stream.forwarded
  panicked : next.phase = .panicked ↔ stream.phase = .panicked

/-- A frame is read. -/
structure Reads (reader : JsonReader) (frame : Frame) (stream next : SseStream) : Prop where
  receiving : next.events.receiving = stream.events.receiving
  frames : next.frames = stream.frames ++ [frame]
  rawLog : next.rawLog = stream.rawLog.map (· ++ [frame.line])
  forwarded : next.forwarded = stream.forwarded ++ (frame.event reader).toList
  alive : stream.phase ≠ .panicked
  parsed : next.phase ≠ .panicked → (frame.event reader).isSome = true

variable {reader : JsonReader} {stream next : SseStream} {action : StreamAction}

/-- A step between two phases with nothing in hand, neither of them that of a panic. -/
theorem keeps_of_plain (plain : stream.phase.plain = true) (still : next.phase.plain = true)
    (receiving : next.events.receiving = stream.events.receiving)
    (accepted : next.events.accepted = stream.events.accepted)
    (frames : next.frames = stream.frames) (rawLog : next.rawLog = stream.rawLog) :
    Keeps stream next where
  receiving := receiving
  frames := frames
  rawLog := rawLog
  forwarded := by
    rw [forwarded, forwarded, StreamPhase.inHand_of_plain plain, StreamPhase.inHand_of_plain still,
      accepted]
  panicked := iff_of_false (StreamPhase.alive_of_plain still) (StreamPhase.alive_of_plain plain)

theorem reads_accept (plain : stream.phase.plain = true) (frame : Frame) :
    Reads reader frame stream (stream.accept reader frame) := by
  have alive := StreamPhase.alive_of_plain plain
  have before : stream.forwarded = stream.events.accepted := by
    rw [forwarded, StreamPhase.inHand_of_plain plain, List.append_nil]
  rw [accept]
  cases parsed : frameEvent reader frame.name frame.data with
  | none =>
      refine ⟨rfl, rfl, rfl, ?_, alive, fun still => (still rfl).elim⟩
      rw [before, Frame.event, parsed]
      rfl
  | some event =>
      refine ⟨rfl, rfl, rfl, ?_, alive, fun _ => by rw [Frame.event, parsed]; rfl⟩
      rw [before, Frame.event, parsed]
      rfl

/-- While the main loop holds its end of the channel, a step reads one frame or none. -/
theorem keeps_or_reads (receiving : stream.events.receiving = true)
    (stepped : StreamStep reader stream action next) :
    Keeps stream next ∨
      ∃ frame random, action = .pollEvents (.frame frame) random ∧
        Reads reader frame stream next := by
  have plain {phase : StreamPhase} (here : stream.phase = phase) (plain : phase.plain = true) :
      stream.phase.plain = true := by
    rw [here, plain]
  cases stepped with
  | left at_top => exact .inl (keeps_of_plain (plain at_top rfl) rfl rfl rfl rfl rfl)
  | requested at_top => exact .inl (keeps_of_plain (plain at_top rfl) rfl rfl rfl rfl rfl)
  | granted connecting => exact .inl (keeps_of_plain (plain connecting rfl) rfl rfl rfl rfl rfl)
  | refused connecting => exact .inl (keeps_of_plain (plain connecting rfl) rfl rfl rfl rfl rfl)
  | undisturbed selecting => exact .inl (keeps_of_plain (plain selecting rfl) rfl rfl rfl rfl rfl)
  | stopped selecting => exact .inl (keeps_of_plain (plain selecting rfl) rfl rfl rfl rfl rfl)
  | disturbed selecting => exact .inl (keeps_of_plain (plain selecting rfl) rfl rfl rfl rfl rfl)
  | accepted listening => exact .inr ⟨_, _, rfl, reads_accept (plain listening rfl) _⟩
  | dropped listening => exact .inl (keeps_of_plain (plain listening rfl) rfl rfl rfl rfl rfl)
  | silent listening => exact .inl (keeps_of_plain (plain listening rfl) rfl rfl rfl rfl rfl)
  | @handed event comment events handing sent =>
      left
      obtain ⟨-, -, -, -, -, -, -, receiving_eq⟩ := Channel.trySend_ok sent
      have after : events.accepted = stream.events.accepted ++ [event] := Channel.accepted_trySend sent
      refine ⟨receiving_eq, rfl, rfl, ?_, iff_of_false (fun ended => by cases ended) ?_⟩
      · rw [forwarded, forwarded, handing, after]
        exact List.append_nil _
      · rw [handing]
        intro ended
        cases ended
  | ignored handing closed =>
      rw [receiving] at closed
      cases closed
  | disconnected handing closed =>
      rw [receiving] at closed
      cases closed
  | woken sleeping => exact .inl (keeps_of_plain (plain sleeping rfl) rfl rfl rfl rfl rfl)
  | roused sleeping => exact .inl (keeps_of_plain (plain sleeping rfl) rfl rfl rfl rfl rfl)
  | noticed sleeping => exact .inl (keeps_of_plain (plain sleeping rfl) rfl rfl rfl rfl rfl)
  | waited duration => exact .inl ⟨rfl, rfl, rfl, rfl, .rfl⟩
  | @received event events taken =>
      left
      obtain ⟨-, -, -, -, -, receiving_eq⟩ := Channel.recv_eq_some taken
      refine ⟨receiving_eq, rfl, rfl, ?_, .rfl⟩
      rw [forwarded, forwarded, Channel.accepted_recv taken]
  | asked => exact .inl ⟨rfl, rfl, rfl, rfl, .rfl⟩

/-! ## Whole runs -/

/-- What was read is what was taken, what waits and what is in hand. -/
structure Forwards (reader : JsonReader) (logged : Bool) (stream : SseStream) : Prop where
  receiving : stream.events.receiving = true
  order : stream.frames.filterMap (Frame.event reader) = stream.forwarded
  parsed : stream.phase ≠ .panicked → ∀ frame ∈ stream.frames, (frame.event reader).isSome = true
  earlier : ∀ frame ∈ stream.frames.dropLast, (frame.event reader).isSome = true
  rawLog : stream.rawLog = if logged then some (stream.frames.map Frame.line) else none

theorem Forwards.step {logged : Bool} (forwards : stream.Forwards reader logged)
    (stepped : StreamStep reader stream action next) : next.Forwards reader logged := by
  obtain keeps | ⟨frame, random, -, reads⟩ := keeps_or_reads forwards.receiving stepped
  · refine ⟨keeps.receiving.trans forwards.receiving, ?_, fun alive => ?_, ?_, ?_⟩
    · rw [keeps.frames, forwards.order, keeps.forwarded]
    · rw [keeps.frames]
      exact forwards.parsed (mt keeps.panicked.mpr alive)
    · rw [keeps.frames]
      exact forwards.earlier
    · rw [keeps.rawLog, forwards.rawLog, keeps.frames]
  · refine ⟨reads.receiving.trans forwards.receiving, ?_, fun alive => ?_, ?_, ?_⟩
    · rw [reads.frames, reads.forwarded, List.filterMap_append, forwards.order]
      cases parsed : frame.event reader <;> simp [parsed]
    · rw [reads.frames]
      intro other member
      obtain member | member := List.mem_append.mp member
      · exact forwards.parsed reads.alive other member
      · rw [List.mem_singleton.mp member]
        exact reads.parsed alive
    · rw [reads.frames, List.dropLast_concat]
      exact forwards.parsed reads.alive
    · rw [reads.rawLog, forwards.rawLog, reads.frames]
      cases logged <;> simp

theorem forwards_of_run {logged : Bool} {schedule : List StreamAction}
    (ran : run (SseStream.step reader) (new logged) schedule = some stream) :
    stream.Forwards reader logged := by
  have initially : (new logged).Forwards reader logged := by
    refine ⟨rfl, rfl, fun _ frame member => ?_, fun frame member => ?_, ?_⟩
    · cases member
    · cases member
    · cases logged <;> rfl
  exact invariant_of_run
    (fun _ _ _ forwards stepped => Forwards.step forwards (streamStep_of_step stepped)) ran initially

/-- In every run, over any number of connections, the events of the frames read so far are those
the main loop took, those in the channel and the one in hand, in this order; only the last frame can
have failed to parse, and then the task has panicked; and a raw log has the line of every frame. -/
theorem frames_forwarded {logged : Bool} {schedule : List StreamAction}
    (ran : run (SseStream.step reader) (new logged) schedule = some stream) :
    stream.frames.filterMap (Frame.event reader) =
        stream.events.taken ++ stream.events.items ++ stream.phase.inHand ∧
      (∀ frame ∈ stream.frames.dropLast, (frame.event reader).isSome = true) ∧
        (stream.phase ≠ .panicked →
          ∀ frame ∈ stream.frames, (frame.event reader).isSome = true) ∧
          stream.rawLog = if logged then some (stream.frames.map Frame.line) else none := by
  have forwards := forwards_of_run ran
  refine ⟨?_, forwards.earlier, forwards.parsed, forwards.rawLog⟩
  rw [forwards.order, forwarded, Channel.accepted, stream.events.kept forwards.receiving,
    List.append_nil]

/-- A frame is read, handed over and taken. -/
theorem frames_forwarded_sample :
    ∃ stream, run (SseStream.step plainReader) (new true)
        [.check, .respond (.status 200) 0, .pollShutdown, .pollEvents (.frame sampleFrame) 0, .hand,
          .receive] = some stream ∧
      stream.frames.filterMap (Frame.event plainReader) =
        stream.events.taken ++ stream.events.items ++ stream.phase.inHand := by
  have completes : (run (SseStream.step plainReader) (new true)
      [.check, .respond (.status 200) 0, .pollShutdown, .pollEvents (.frame sampleFrame) 0, .hand,
        .receive]).isSome = true := by
    decide +kernel
  obtain ⟨stream, ran⟩ := Option.isSome_iff_exists.mp completes
  exact ⟨stream, ran, (frames_forwarded ran).1⟩

end SseStream

end Loraterm
