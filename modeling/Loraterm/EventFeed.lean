import Loraterm.DaemonSteps

/-!
# The event feed

The stream task parses the frames of the bridge and hands the events to the main loop through a
bounded channel.  A panic while parsing ends the task and drops its end of the channel, and the
main loop leaves when it finds the channel closed.
-/

namespace Loraterm

open Utf8Text Mpsc Execution

/-! ## Frames that parse -/

/-- The log line of malformed data can be formatted: its slice ends between two characters. -/
def HeadSliceable (data : Text) : Prop :=
  ∃ head tail, data = head ++ tail ∧ byteLen head = min (byteLen data) 200

/-- The data of a frame is JSON, or is logged without a panic. -/
def Loggable (reader : JsonReader) (data : Text) : Prop :=
  (reader.fromStr data).isSome = true ∨ reader.debug = false ∨ HeadSliceable data

theorem isSome_malformedHead_iff (data : Text) :
    (malformedHead data).isSome = true ↔ HeadSliceable data := by
  rw [malformedHead, Option.isSome_map]
  exact isSome_splitAt?_iff data _

theorem headSliceable_of_short {data : Text} (short : byteLen data ≤ 200) : HeadSliceable data :=
  ⟨data, [], by simp, by omega⟩

theorem isSome_parseEvent_iff (reader : JsonReader) (eventName data : Text) :
    (parseEvent reader eventName data).isSome = true ↔ Loggable reader data := by
  cases read : reader.fromStr data with
  | some value => simp [parseEvent, Loggable, read]
  | none =>
      cases logging : reader.debug with
      | true => simp [parseEvent, Loggable, read, logging, isSome_malformedHead_iff]
      | false => simp [parseEvent, Loggable, read, logging]

theorem isSome_frameEvent_iff (reader : JsonReader) (eventName data : Text) :
    (frameEvent reader eventName data).isSome = true ↔ Loggable reader data := by
  rw [frameEvent]
  split
  · rename_i empty
    have short : byteLen data ≤ 200 := by simp [List.isEmpty_iff.mp empty]
    exact ⟨fun _ => .inr (.inr (headSliceable_of_short short)), fun _ => rfl⟩
  · exact isSome_parseEvent_iff reader eventName data

/-! ## The stream task and the main loop -/

/-- The stream task, the channel of its events and the main loop. -/
structure EventFeed where
  events : Channel SseEvent
  /-- Whether the stream task is alive. -/
  alive : Bool
  /-- Whether the main loop still waits for events. -/
  looping : Bool

/-- The steps of the two tasks. -/
inductive FeedAction
  /-- The stream task parses a frame and hands its event over. -/
  | frame (name data : Text)
  /-- The main loop polls its event arm. -/
  | receive

namespace EventFeed

/-- Slots of the event channel. -/
def capacity : Nat := 256

/-- The feed as the main loop starts. -/
def new : EventFeed := { events := .empty capacity, alive := true, looping := true }

/-- The stream task ends and drops its end of the channel. -/
def endTask (feed : EventFeed) : EventFeed :=
  { feed with events := feed.events.dropSender, alive := false }

/-- The main loop leaves and the receiving end is dropped. -/
def endLoop (feed : EventFeed) : EventFeed :=
  { feed with events := feed.events.dropReceiver, looping := false }

/-- One frame: a full channel makes the task wait, a closed one ends it unless the frame is a
comment. -/
def frame (reader : JsonReader) (feed : EventFeed) (name data : Text) : Option EventFeed :=
  match frameEvent reader name data with
  | none => some feed.endTask
  | some event =>
      match feed.events.trySend event with
      | .ok events => some { feed with events }
      | .error .full => none
      | .error .closed => if data.isEmpty then some feed else some feed.endTask

/-- One poll of the event arm. -/
def receive (feed : EventFeed) : Option EventFeed :=
  match feed.events.recv with
  | some (_, events) => some { feed with events }
  | none => if feed.events.finished then some feed.endLoop else none

/-- One step of either task. -/
def step (reader : JsonReader) (feed : EventFeed) : FeedAction → Option EventFeed
  | .frame name data => if feed.alive then feed.frame reader name data else none
  | .receive => if feed.looping then feed.receive else none

/-- Both tasks are alive. -/
def Serving (feed : EventFeed) : Prop := feed.alive = true ∧ feed.looping = true

/-- The two ends of the channel live as long as their tasks. -/
structure Sound (feed : EventFeed) : Prop where
  sending : feed.events.sending = feed.alive
  receiving : feed.events.receiving = feed.looping

/-- A frame that is fed can be parsed or logged. -/
def FeedsLoggable (reader : JsonReader) (_ : EventFeed) : FeedAction → Prop
  | .frame _ data => Loggable reader data
  | .receive => True

variable {reader : JsonReader} {feed next : EventFeed} {action : FeedAction}

theorem Sound.step (sound : feed.Sound) (stepped : feed.step reader action = some next) :
    next.Sound := by
  cases action with
  | frame name data =>
      simp only [EventFeed.step, frame] at stepped
      split at stepped
      · split at stepped
        · obtain rfl := Option.some.inj stepped
          exact ⟨rfl, sound.receiving⟩
        · split at stepped
          · rename_i sent
            obtain ⟨-, -, -, -, -, -, sending_eq, receiving_eq⟩ := Channel.trySend_ok sent
            obtain rfl := Option.some.inj stepped
            exact ⟨sending_eq.trans sound.sending, receiving_eq.trans sound.receiving⟩
          · cases stepped
          · split at stepped
            · obtain rfl := Option.some.inj stepped
              exact sound
            · obtain rfl := Option.some.inj stepped
              exact ⟨rfl, sound.receiving⟩
      · cases stepped
  | receive =>
      simp only [EventFeed.step, receive] at stepped
      split at stepped
      · split at stepped
        · rename_i received
          obtain ⟨-, -, -, -, sending_eq, receiving_eq⟩ := Channel.recv_eq_some received
          obtain rfl := Option.some.inj stepped
          exact ⟨sending_eq.trans sound.sending, receiving_eq.trans sound.receiving⟩
        · split at stepped
          · obtain rfl := Option.some.inj stepped
            exact ⟨sound.sending, rfl⟩
          · cases stepped
      · cases stepped

/-- While both tasks serve, only a frame that panics ends one of them. -/
theorem serving_iff_of_step (sound : feed.Sound) (serving : feed.Serving)
    (stepped : feed.step reader action = some next) :
    next.Serving ↔ FeedsLoggable reader feed action := by
  cases action with
  | frame name data =>
      rw [FeedsLoggable, ← isSome_frameEvent_iff reader name data]
      simp only [EventFeed.step, frame, if_pos serving.1] at stepped
      split at stepped
      · rename_i panics
        obtain rfl := Option.some.inj stepped
        simp [Serving, endTask, panics]
      · rename_i event parsed
        split at stepped
        · obtain rfl := Option.some.inj stepped
          exact ⟨fun _ => by simp [parsed], fun _ => ⟨serving.1, serving.2⟩⟩
        · cases stepped
        · rename_i closed
          have gone := Channel.trySend_closed closed
          rw [sound.receiving, serving.2] at gone
          cases gone
  | receive =>
      simp only [EventFeed.step, receive, if_pos serving.2] at stepped
      split at stepped
      · obtain rfl := Option.some.inj stepped
        exact ⟨fun _ => trivial, fun _ => ⟨serving.1, serving.2⟩⟩
      · split at stepped
        · rename_i finished
          simp [Channel.finished, sound.sending, serving.1] at finished
        · cases stepped

/-- Once the stream task has ended, the main loop receives what is left and leaves. -/
theorem leaves_of_ended (sound : feed.Sound) (ended : feed.alive = false)
    (looping : feed.looping = true) :
    ∃ final, Leads (step reader) (· = .receive) feed final ∧ final.looping = false := by
  generalize left : feed.events.items = items
  induction items generalizing feed with
  | nil =>
      have nothing := Channel.recv_eq_none_iff.mpr left
      have finished : feed.events.finished = true := by
        simp [Channel.finished, left, sound.sending, ended]
      refine ⟨feed.endLoop, .single rfl ?_, rfl⟩
      simp [EventFeed.step, looping, receive, nothing, finished]
  | cons event items ih =>
      have waiting : feed.events.items ≠ [] := by simp [left]
      obtain ⟨message, events, received⟩ := Channel.exists_recv waiting
      obtain ⟨items_eq, -, -, -, sending_eq, receiving_eq⟩ := Channel.recv_eq_some received
      have stepped : feed.step reader .receive = some { feed with events } := by
        simp [EventFeed.step, looping, receive, received]
      have rest : events.items = items := by
        rw [left] at items_eq
        exact (List.cons.inj items_eq).2.symm
      obtain ⟨final, leads, left_loop⟩ :=
        @ih { feed with events }
          ⟨sending_eq.trans sound.sending, receiving_eq.trans sound.receiving⟩ ended looping rest
      exact ⟨final, .head rfl stepped leads, left_loop⟩

end EventFeed

/-! ## The daemon -/

namespace Daemon

/-- A frame that is handled can be parsed or logged. -/
def HandlesLoggable (reader : JsonReader) (_ : Daemon) : DaemonAction → Prop
  | .frame _ data _ _ => Loggable reader data
  | _ => True

theorem streaming_ensure (daemon : Daemon) (peer : ValidatedPeer) (pubkey text : Text)
    (terminal : Option Terminal) (unixSecs : Nat) :
    (daemon.ensure peer pubkey text terminal unixSecs).streaming = daemon.streaming := by
  simp only [ensure]
  split
  · rfl
  · split
    · rfl
    · split <;> rfl

theorem streaming_dispatch (daemon : Daemon) (dm : DmEvent) (terminal : Option Terminal)
    (unixSecs : Nat) : (daemon.dispatch dm terminal unixSecs).streaming = daemon.streaming := by
  rw [dispatch]
  split
  · rfl
  · split
    · rfl
    · rename_i pubkey _
      split
      · rfl
      · obtain ⟨same, -⟩ | ⟨_, _, -, -, -, same⟩ := daemon.dropStale_cases pubkey <;>
          rw [streaming_ensure, same]

theorem streaming_reload (daemon : Daemon) (loaded : Except ConfigError Whitelist) :
    (daemon.reload loaded).streaming = daemon.streaming := by
  cases loaded with
  | error error => rfl
  | ok whitelist =>
      have same := congrArg Daemon.streaming (same_reload daemon whitelist)
      exact same

/-- Steps that bring no frame leave the stream task alone. -/
theorem streaming_of_step {strip : List UInt8 → List UInt8} {reader : JsonReader}
    {daemon next : Daemon} {action : DaemonAction}
    (unread : ∀ name data terminal unixSecs, action ≠ .frame name data terminal unixSecs)
    (stepped : DaemonStep strip reader daemon action next) : next.streaming = daemon.streaming := by
  cases stepped with
  | sent dispatching =>
      rw [send]
      split <;> rfl
  | reloaded => exact streaming_reload daemon _
  | broken => exact (unread _ _ _ _ rfl).elim
  | refused brings => exact (unread _ _ _ _ rfl).elim
  | panicked brings => exact (unread _ _ _ _ rfl).elim
  | kept brings registered => exact (unread _ _ _ _ rfl).elim
  | spawned brings missing created => exact (unread _ _ _ _ rfl).elim
  | _ => rfl

/-- The stream task survives every step of the daemon but a frame that panics. -/
theorem streaming_iff_of_step {strip : List UInt8 → List UInt8} {reader : JsonReader}
    {daemon next : Daemon} {action : DaemonAction} (streaming : daemon.streaming = true)
    (stepped : daemon.step strip reader action = some next) :
    next.streaming = true ↔ HandlesLoggable reader daemon action := by
  cases action with
  | frame name data terminal unixSecs =>
      rw [HandlesLoggable, ← isSome_frameEvent_iff reader name data]
      simp only [step] at stepped
      split at stepped
      · obtain rfl := Option.some.inj stepped
        rw [frame]
        split
        · rename_i panics
          simp [panics]
        · rename_i dm parsed
          simp [parsed, streaming_dispatch, streaming]
        · rename_i event _ parsed
          exact ⟨fun _ => by simp [parsed], fun _ => streaming⟩
      · cases stepped
  | _ =>
      have kept := streaming_of_step (by simp) (daemonStep_of_step stepped)
      exact iff_of_true (kept.trans streaming) trivial

end Daemon

/-! ## The whole feed -/

/-- A frame is parsed without a panic exactly when it is JSON or its log line can be formatted; in
every run of the feed and of the daemon the stream task lives exactly as long as all frames are
such; and when it has died, the main loop leaves through the closed channel. -/
theorem stream_survives_iff (strip : List UInt8 → List UInt8) (reader : JsonReader) :
    (∀ eventName data, (parseEvent reader eventName data).isSome = true ↔ Loggable reader data) ∧
      (∀ schedule feed, run (EventFeed.step reader) .new schedule = some feed →
        (AllStates (EventFeed.step reader) EventFeed.Serving .new schedule ↔
          AllSteps (EventFeed.step reader) (EventFeed.FeedsLoggable reader) .new schedule) ∧
        (feed.alive = false → feed.looping = true →
          ∃ final, Leads (EventFeed.step reader) (· = .receive) feed final ∧
            final.looping = false)) ∧
        ∀ limits chunking whitelist schedule daemon,
          run (Daemon.step strip reader) (.new limits chunking whitelist) schedule = some daemon →
            (AllStates (Daemon.step strip reader) (·.streaming = true)
                (.new limits chunking whitelist) schedule ↔
              AllSteps (Daemon.step strip reader) (Daemon.HandlesLoggable reader)
                (.new limits chunking whitelist) schedule) := by
  refine ⟨isSome_parseEvent_iff reader, fun schedule feed ran => ⟨?_, ?_⟩,
    fun limits chunking whitelist schedule daemon ran => ?_⟩
  · exact allStates_iff_allSteps (fun _ _ _ sound stepped => EventFeed.Sound.step sound stepped)
      (fun _ _ _ sound serving loggable stepped =>
        (EventFeed.serving_iff_of_step sound serving stepped).mpr loggable)
      (fun _ _ _ sound serving still stepped =>
        (EventFeed.serving_iff_of_step sound serving stepped).mp still)
      ran ⟨rfl, rfl⟩ ⟨rfl, rfl⟩
  · have sound : feed.Sound := invariant_of_run
      (fun _ _ _ sound stepped => EventFeed.Sound.step sound stepped) ran ⟨rfl, rfl⟩
    exact EventFeed.leaves_of_ended sound
  · exact allStates_iff_allSteps (fun _ _ _ (_ : True) _ => trivial)
      (fun _ _ _ _ streaming loggable stepped =>
        (Daemon.streaming_iff_of_step streaming stepped).mpr loggable)
      (fun _ _ _ _ streaming still stepped =>
        (Daemon.streaming_iff_of_step streaming stepped).mp still)
      ran trivial rfl

/-- Text that is not JSON, with a two-byte character across its 200th byte, kills the stream task,
and the main loop with it. -/
theorem malformed_frame_ends_daemon :
    ¬ ∀ reader : JsonReader, reader.debug = true →
      (∀ eventName data, (parseEvent reader eventName data).isSome = true) ∧
        ∀ schedule feed, run (EventFeed.step reader) .new schedule = some feed →
          feed.looping = true := by
  intro survives
  let rejecting : JsonReader := { fromStr := fun _ => none, debug := true }
  let data : Text := List.replicate 199 'a' ++ "é".toList
  have panics : (parseEvent rejecting "message".toList data).isSome = false := by decide +kernel
  simp [(survives rejecting rfl).1] at panics

end Loraterm
