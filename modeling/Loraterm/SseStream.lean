import Loraterm.Library.Mpsc
import Loraterm.Library.Retry
import Loraterm.Library.WatchChannel
import Loraterm.Config
import Loraterm.Sse

/-!
# The stream task

The task behind the event channel connects to the bridge, reads frames, and connects again after a
delay when a connection fails, ends or falls silent.  It is told to stop through a watch channel.
The select of the inner loop is two steps: the shutdown arm is polled first, then the events; the
main task may act in between.  The main task holds its ends of both channels as long as there are
steps.
-/

namespace Loraterm

open Utf8Text Mpsc WatchChannel Retry

/-- One frame of the event stream. -/
structure Frame where
  name : Text
  id : Text
  data : Text
  deriving DecidableEq, Repr

/-- The line of a frame in the raw log. -/
def Frame.line (frame : Frame) : Text :=
  "event=".toList ++ frame.name ++ " id=".toList ++ frame.id ++ " data=".toList ++ frame.data ++
    ['\n']

/-- What becomes of a request for the stream. -/
inductive Response
  | failed
  | status (code : Nat)
  deriving DecidableEq, Repr

/-- Whether the bridge grants the stream. -/
def Response.isSuccess : Response → Bool
  | .failed => false
  | .status code => 200 ≤ code ∧ code < 300

/-- What one poll of a connection brings. -/
inductive Arrival
  | pending
  /-- The bridge closed the connection. -/
  | ended
  /-- The bytes are no event stream. -/
  | broken
  | frame (frame : Frame)
  deriving DecidableEq, Repr

/-- Where the stream task is in its `run`. -/
inductive StreamPhase
  /-- At the head of the outer loop. -/
  | top
  /-- Waiting for the response to a request. -/
  | connecting
  /-- About to poll the shutdown arm; the frame is awaited since an instant. -/
  | selecting (since : Nat)
  /-- The shutdown arm was pending; about to poll the events. -/
  | listening (since : Nat)
  /-- Waiting for a slot of the event channel; what becomes of a comment is ignored. -/
  | handing (event : SseEvent) (comment : Bool)
  /-- Waiting before the next request. -/
  | sleeping (deadline : Nat)
  | returned
  | panicked

/-- The event in hand. -/
def StreamPhase.inHand : StreamPhase → List SseEvent
  | .handing event _ => [event]
  | _ => []

/-- The task has ended. -/
def StreamPhase.isOver : StreamPhase → Bool
  | .returned | .panicked => true
  | _ => false

/-- The stream task with its ends of the two channels. -/
structure SseStream where
  phase : StreamPhase
  /-- Delay before the next request but for the jitter. -/
  backoff : Nat
  /-- The lines handed to the raw log, when there is one. -/
  rawLog : Option (List Text)
  events : Channel SseEvent
  shutdown : Watch Bool
  clock : Nat
  /-- Every request so far. -/
  attempts : List Attempt
  /-- Every frame read so far, over all connections. -/
  frames : List Frame

/-- The steps of the stream task, those of the main task at the other ends, and the passing of
time. -/
inductive StreamAction
  /-- Look whether to go on, and send a request. -/
  | check
  /-- The response arrives; `random` is the number the jitter is drawn from. -/
  | respond (response : Response) (random : Nat)
  | pollShutdown
  | pollEvents (arrival : Arrival) (random : Nat)
  /-- Hand the event in hand over. -/
  | hand
  /-- The delay is over. -/
  | wake
  /-- A change of the watch channel cuts the delay short. -/
  | notice
  | wait (duration : Nat)
  /-- The main task takes an event. -/
  | receive
  /-- The main task tells the stream task to stop. -/
  | stop
  deriving DecidableEq

/-- Whether an action is a step of the stream task. -/
def StreamAction.own : StreamAction → Bool
  | .wait _ | .receive | .stop => false
  | _ => true

namespace SseStream

/-- The first delay. -/
def firstDelay : Nat := fromSecs 1

/-- The longest delay. -/
def backoffCap : Nat := fromSecs 60

/-- How long a connection may stay silent. -/
def watchdog : Nat := fromSecs 60

/-- Slots of the event channel. -/
def capacity : Nat := 256

/-- The random part of a delay, below half a second. -/
def jitter (random : Nat) : Nat := random % 500 * 1000000

/-- The task as it starts, with or without a raw log. -/
def new (logged : Bool) : SseStream where
  phase := .top
  backoff := firstDelay
  rawLog := if logged then some [] else none
  events := .empty capacity
  shutdown := .new false
  clock := 0
  attempts := []
  frames := []

/-- The task ends and drops its end of the event channel. -/
def finish (stream : SseStream) (phase : StreamPhase) : SseStream :=
  { stream with events := stream.events.dropSender, phase }

/-- Begin the delay before the next request. -/
def retry (stream : SseStream) (random : Nat) : SseStream :=
  { stream with phase := .sleeping (stream.clock + (stream.backoff + jitter random)) }

/-- The head of the outer loop. -/
def check (stream : SseStream) : SseStream :=
  if stream.shutdown.value then stream.finish .returned
  else
    { stream with
      attempts := stream.attempts ++ [{ start := stream.clock, succeeded := false }]
      phase := .connecting }

/-- Note that the last request was granted. -/
def markSuccess (attempts : List Attempt) : List Attempt :=
  attempts.modify (attempts.length - 1) ({ · with succeeded := true })

/-- The response to a request. -/
def respond (stream : SseStream) (response : Response) (random : Nat) : SseStream :=
  if response.isSuccess then
    { stream with
      backoff := firstDelay
      attempts := markSuccess stream.attempts
      phase := .selecting stream.clock }
  else stream.retry random

/-- The shutdown arm of the select. -/
def pollShutdown (stream : SseStream) (since : Nat) : SseStream :=
  match stream.shutdown.changed with
  | none => { stream with phase := .listening since }
  | some shutdown =>
      if shutdown.value then { stream with shutdown }.finish .returned
      else { stream with shutdown, phase := .selecting stream.clock }

variable (reader : JsonReader)

/-- A frame is logged, and parsed unless it has no data. -/
def accept (stream : SseStream) (frame : Frame) : SseStream :=
  let logged :=
    { stream with
      rawLog := stream.rawLog.map (· ++ [frame.line])
      frames := stream.frames ++ [frame] }
  match frameEvent reader frame.name frame.data with
  | none => logged.finish .panicked
  | some event => { logged with phase := .handing event frame.data.isEmpty }

/-- The event arm of the select, under the watchdog. -/
def pollEvents (stream : SseStream) (since : Nat) (arrival : Arrival) (random : Nat) : SseStream :=
  match arrival with
  | .frame frame => stream.accept reader frame
  | .ended => stream.retry random
  | .broken => stream.retry random
  | .pending =>
      if since + watchdog ≤ stream.clock then stream.retry random
      else { stream with phase := .selecting since }

/-- Hand an event over, waiting while the channel is full. -/
def hand (stream : SseStream) (event : SseEvent) (comment : Bool) : Option SseStream :=
  match stream.events.trySend event with
  | .ok events => some { stream with events, phase := .selecting stream.clock }
  | .error .full => none
  | .error .closed =>
      if comment then some { stream with phase := .selecting stream.clock }
      else some (stream.finish .returned)

/-- After the delay: the next one is longer. -/
def resume (stream : SseStream) : SseStream :=
  { stream with backoff := grow backoffCap stream.backoff, phase := .top }

/-- The shutdown arm of the delay. -/
def notice (stream : SseStream) : Option SseStream :=
  stream.shutdown.changed.map fun shutdown =>
    if shutdown.value then { stream with shutdown }.finish .returned
    else { stream with shutdown }.resume

/-- One step. -/
def step (stream : SseStream) : StreamAction → Option SseStream
  | .check =>
      match stream.phase with
      | .top => some stream.check
      | _ => none
  | .respond response random =>
      match stream.phase with
      | .connecting => some (stream.respond response random)
      | _ => none
  | .pollShutdown =>
      match stream.phase with
      | .selecting since => some (stream.pollShutdown since)
      | _ => none
  | .pollEvents arrival random =>
      match stream.phase with
      | .listening since => some (stream.pollEvents reader since arrival random)
      | _ => none
  | .hand =>
      match stream.phase with
      | .handing event comment => stream.hand event comment
      | _ => none
  | .wake =>
      match stream.phase with
      | .sleeping deadline => if deadline ≤ stream.clock then some stream.resume else none
      | _ => none
  | .notice =>
      match stream.phase with
      | .sleeping _ => stream.notice
      | _ => none
  | .wait duration => some { stream with clock := stream.clock + duration }
  | .receive => stream.events.recv.map fun (_, events) => { stream with events }
  | .stop => some { stream with shutdown := stream.shutdown.send true }

/-! ## Kinds of steps -/

/-- The kinds of steps of the stream task. -/
inductive StreamStep (stream : SseStream) : StreamAction → SseStream → Prop
  | left (at_top : stream.phase = .top) (told : stream.shutdown.value = true) :
      StreamStep stream .check (stream.finish .returned)
  | requested (at_top : stream.phase = .top) (untold : stream.shutdown.value = false) :
      StreamStep stream .check
        { stream with
          attempts := stream.attempts ++ [{ start := stream.clock, succeeded := false }]
          phase := .connecting }
  | granted {response : Response} {random : Nat} (connecting : stream.phase = .connecting) :
      StreamStep stream (.respond response random)
        { stream with
          backoff := firstDelay
          attempts := markSuccess stream.attempts
          phase := .selecting stream.clock }
  | refused {response : Response} {random : Nat} (connecting : stream.phase = .connecting) :
      StreamStep stream (.respond response random) (stream.retry random)
  | undisturbed {since : Nat} (selecting : stream.phase = .selecting since)
      (waits : stream.shutdown.changed = none) :
      StreamStep stream .pollShutdown { stream with phase := .listening since }
  | stopped {since : Nat} {shutdown : Watch Bool} (selecting : stream.phase = .selecting since)
      (changed : stream.shutdown.changed = some shutdown) (told : shutdown.value = true) :
      StreamStep stream .pollShutdown ({ stream with shutdown }.finish .returned)
  | disturbed {since : Nat} {shutdown : Watch Bool} (selecting : stream.phase = .selecting since)
      (changed : stream.shutdown.changed = some shutdown) (untold : shutdown.value = false) :
      StreamStep stream .pollShutdown { stream with shutdown, phase := .selecting stream.clock }
  | accepted {since random : Nat} {frame : Frame} (listening : stream.phase = .listening since) :
      StreamStep stream (.pollEvents (.frame frame) random) (stream.accept reader frame)
  | dropped {since random : Nat} {arrival : Arrival} (listening : stream.phase = .listening since) :
      StreamStep stream (.pollEvents arrival random) (stream.retry random)
  | silent {since random : Nat} {arrival : Arrival} (listening : stream.phase = .listening since) :
      StreamStep stream (.pollEvents arrival random) { stream with phase := .selecting since }
  | handed {event : SseEvent} {comment : Bool} {events : Channel SseEvent}
      (handing : stream.phase = .handing event comment)
      (sent : stream.events.trySend event = .ok events) :
      StreamStep stream .hand { stream with events, phase := .selecting stream.clock }
  | ignored {event : SseEvent} {comment : Bool} (handing : stream.phase = .handing event comment)
      (closed : stream.events.receiving = false) :
      StreamStep stream .hand { stream with phase := .selecting stream.clock }
  | disconnected {event : SseEvent} {comment : Bool}
      (handing : stream.phase = .handing event comment)
      (closed : stream.events.receiving = false) :
      StreamStep stream .hand (stream.finish .returned)
  | woken {deadline : Nat} (sleeping : stream.phase = .sleeping deadline)
      (past : deadline ≤ stream.clock) : StreamStep stream .wake stream.resume
  | roused {deadline : Nat} {shutdown : Watch Bool} (sleeping : stream.phase = .sleeping deadline)
      (changed : stream.shutdown.changed = some shutdown) (untold : shutdown.value = false) :
      StreamStep stream .notice ({ stream with shutdown }.resume)
  | noticed {deadline : Nat} {shutdown : Watch Bool} (sleeping : stream.phase = .sleeping deadline)
      (changed : stream.shutdown.changed = some shutdown) (told : shutdown.value = true) :
      StreamStep stream .notice ({ stream with shutdown }.finish .returned)
  | waited (duration : Nat) :
      StreamStep stream (.wait duration) { stream with clock := stream.clock + duration }
  | received {event : SseEvent} {events : Channel SseEvent}
      (taken : stream.events.recv = some (event, events)) :
      StreamStep stream .receive { stream with events }
  | asked : StreamStep stream .stop { stream with shutdown := stream.shutdown.send true }

variable {reader} {stream next : SseStream} {action : StreamAction}

theorem streamStep_of_step (stepped : stream.step reader action = some next) :
    StreamStep reader stream action next := by
  cases action with
  | check =>
      simp only [step] at stepped
      split at stepped
      · rename_i at_top
        obtain rfl := Option.some.inj stepped
        rw [check]
        split
        · rename_i told
          exact .left at_top told
        · rename_i untold
          exact .requested at_top (by simpa using untold)
      · cases stepped
  | respond response random =>
      simp only [step] at stepped
      split at stepped
      · rename_i connecting
        obtain rfl := Option.some.inj stepped
        rw [respond]
        split
        · exact .granted connecting
        · exact .refused connecting
      · cases stepped
  | pollShutdown =>
      simp only [step] at stepped
      split at stepped
      · rename_i selecting
        obtain rfl := Option.some.inj stepped
        rw [pollShutdown]
        split
        · rename_i waits
          exact .undisturbed selecting waits
        · rename_i changed
          split
          · rename_i told
            exact .stopped selecting changed told
          · rename_i untold
            exact .disturbed selecting changed (by simpa using untold)
      · cases stepped
  | pollEvents arrival random =>
      simp only [step] at stepped
      split at stepped
      · rename_i listening
        obtain rfl := Option.some.inj stepped
        cases arrival with
        | frame frame => exact .accepted listening
        | ended => exact .dropped listening
        | broken => exact .dropped listening
        | pending =>
            simp only [pollEvents]
            split
            · exact .dropped listening
            · exact .silent listening
      · cases stepped
  | hand =>
      simp only [step] at stepped
      split at stepped
      · rename_i handing
        rw [hand] at stepped
        split at stepped
        · rename_i sent
          obtain rfl := Option.some.inj stepped
          exact .handed handing sent
        · cases stepped
        · rename_i refused
          have closed := Channel.trySend_closed refused
          split at stepped
          · obtain rfl := Option.some.inj stepped
            exact .ignored handing closed
          · obtain rfl := Option.some.inj stepped
            exact .disconnected handing closed
      · cases stepped
  | wake =>
      simp only [step] at stepped
      split at stepped
      · rename_i sleeping
        split at stepped
        · rename_i past
          obtain rfl := Option.some.inj stepped
          exact .woken sleeping past
        · cases stepped
      · cases stepped
  | notice =>
      simp only [step] at stepped
      split at stepped
      · rename_i sleeping
        obtain ⟨shutdown, changed, rfl⟩ := Option.map_eq_some_iff.mp stepped
        split
        · rename_i told
          exact .noticed sleeping changed told
        · rename_i untold
          exact .roused sleeping changed (by simpa using untold)
      · cases stepped
  | wait duration =>
      obtain rfl := Option.some.inj stepped
      exact .waited duration
  | receive =>
      obtain ⟨⟨event, events⟩, taken, rfl⟩ := Option.map_eq_some_iff.mp stepped
      exact .received taken
  | stop =>
      obtain rfl := Option.some.inj stepped
      exact .asked

/-! ## A sample task -/

/-- A reader that takes nothing for JSON. -/
def plainReader : JsonReader := { fromStr := fun _ => none, debug := false }

/-- A frame with two characters of data. -/
def sampleFrame : Frame := { name := "message".toList, id := [], data := "hi".toList }

end SseStream

end Loraterm
