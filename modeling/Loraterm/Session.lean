import Loraterm.Chunker
import Loraterm.Config
import Loraterm.Outbound
import Loraterm.Pty

/-!
# Peer sessions

One session is an actor, its sender task and its PTY.  A step is one step of any of them, or of
the daemon that holds the session's handle.  The select loop is two steps: the shutdown arm is
polled first and on its own, then the other arms in their order; the daemon may act in between.
A parked actor is one that keeps polling.
-/

namespace Loraterm

open Utf8Text Mpsc Execution

/-- Why a session ends. -/
inductive Reason
  | shutdown
  | revoked
  | idle
  | ptyClosed
  | inputClosed
  | ptyEof
  deriving DecidableEq, Repr

/-- The words of a reason. -/
def Reason.text : Reason → Text
  | .shutdown => "shutdown".toList
  | .revoked => "revoked".toList
  | .idle => "idle".toList
  | .ptyClosed => "pty_closed".toList
  | .inputClosed => "input_closed".toList
  | .ptyEof => "pty_eof".toList

/-- The last message of a session. -/
def farewell (reason : Reason) : Text := "session closed: ".toList ++ reason.text

/-- The line that stands for an interrupt. -/
def interruptToken : Text := "[ctrl-c]".toList

/-- The bytes a line of input becomes. -/
def encodePtyInput (line : Text) : List UInt8 :=
  if eqIgnoreAsciiCase (trim line) interruptToken then [0x03]
  else
    let payload := bytes line
    if payload.getLast? = some 0x0A then payload else payload ++ [0x0A]

/-- An unsigned 64-bit number read as a signed one. -/
def asI64 (value : Nat) : Int := Int.bmod value (2 ^ 64)

/-- Where the actor is in its `run`. -/
inductive ActorPhase
  | starting
  /-- About to compute the deadline and poll the shutdown arm. -/
  | selecting
  /-- The shutdown arm was pending; about to poll the other arms. -/
  | listening
  /-- Handing chunks to the outbound queue. -/
  | enqueuing (chunks : List Text)
  /-- Waiting for a slot of the PTY input channel. -/
  | forwarding (payload : List UInt8)
  /-- Out of the loop, offering the last messages. -/
  | flushing (reason : Reason) (messages : List Text)
  /-- Waiting for the sender task. -/
  | joining (reason : Reason)
  /-- Waiting for the child. -/
  | reaping (reason : Reason)
  | returned (reason : Reason)
  | crashed
  deriving DecidableEq, Repr

namespace ActorPhase

/-- The actor has not left its loop. -/
def inLoop : ActorPhase → Bool
  | .starting | .selecting | .listening | .enqueuing _ | .forwarding _ => true
  | _ => false

/-- The actor's task has ended. -/
def isOver : ActorPhase → Bool
  | .returned _ | .crashed => true
  | _ => false

/-- The actor has left its loop and its task has not ended. -/
def leaving : ActorPhase → Bool
  | .flushing .. | .joining _ | .reaping _ => true
  | _ => false

/-- The actor still holds the sending end of its outbound queue. -/
def offers : ActorPhase → Bool
  | .flushing .. => true
  | phase => phase.inLoop

/-- The payload taken from the input channel and not yet passed on. -/
def inHand : ActorPhase → List (List UInt8)
  | .forwarding payload => [payload]
  | _ => []

end ActorPhase

/-- Where the sender task is in its `run`. -/
inductive SenderPhase
  | waiting
  /-- A chunk waits for the two rate limiters. -/
  | holding (chunk : Text)
  | done
  deriving DecidableEq, Repr

/-- The chunk taken from the queue and not yet handed over. -/
def SenderPhase.inHand : SenderPhase → List Text
  | .holding chunk => [chunk]
  | _ => []

/-- What one poll of the select loop sees of the outside. -/
structure Wake where
  /-- The idle timer ticks. -/
  tick : Bool
  /-- The silence timer has fired. -/
  silence : Bool
  /-- Monotonic time. -/
  instant : Nat
  /-- Wall-clock seconds. -/
  unixSecs : Nat
  deriving DecidableEq, Repr

/-- A poll at which no timer fires. -/
def Wake.plain (instant unixSecs : Nat) : Wake := { tick := false, silence := false, instant, unixSecs }

/-- A poll at which the idle timer ticks. -/
def Wake.ticking (instant unixSecs : Nat) : Wake := { tick := true, silence := false, instant, unixSecs }

/-- A peer session. -/
structure Session where
  /-- The whitelist entry as it was when the session was spawned. -/
  peer : ValidatedPeer
  limits : LimitsConfig
  phase : ActorPhase
  chunker : Chunker
  /-- From the actor to the sender task. -/
  outbound : Outbound
  sender : SenderPhase
  /-- What the sender task handed to `send_dm` so far. -/
  handed : List Text
  /-- From the daemon to the actor. -/
  input : Channel Text
  /-- The shutdown reason on its way to the actor. -/
  shutdown : Oneshot Reason
  lastActivity : Int
  pty : Pty
  deriving DecidableEq

/-- The steps of a session's parties. -/
inductive SessionAction
  /-- The daemon touches the handle and offers a line. -/
  | deliver (line : Text) (unixSecs : Nat)
  /-- The daemon sends a shutdown reason and drops the handle. -/
  | dismiss (reason : Reason)
  /-- The daemon drops the handle. -/
  | forget
  | actor (wake : Wake)
  | senderReceive
  | senderSend
  | pty (action : PtyAction)
  deriving DecidableEq, Repr

/-- Whether an action is the session's own, not the daemon's. -/
def SessionAction.own : SessionAction → Bool
  | .deliver .. | .dismiss _ | .forget => false
  | _ => true

namespace Session

/-- The knobs of the session's chunker. -/
def chunkerOpts (peer : ValidatedPeer) (limits : LimitsConfig) (chunking : ChunkingConfig) :
    ChunkerOpts where
  maxChars := peer.dmMaxChars.getD chunking.dmMaxChars
  numberChunks := chunking.numberChunks
  flushSilence := chunking.flushSilence
  burstChunkCap := limits.burstChunkCap

/-- How long the session may be idle. -/
def idleTimeout (session : Session) : Nat :=
  session.peer.idleTimeout.getD session.limits.idleTimeout

/-- A new session on a fresh PTY; `none` is a panic of the channel constructor. -/
def spawn (peer : ValidatedPeer) (limits : LimitsConfig) (chunking : ChunkingConfig) (pty : Pty)
    (unixSecs : Nat) : Option Session :=
  (Channel.new limits.inboundChannelDepth).map fun input =>
    { peer
      limits
      phase := .starting
      chunker := .new (chunkerOpts peer limits chunking)
      outbound := .new (.empty limits.outboundChannelDepth)
      sender := .waiting
      handed := []
      input
      shutdown := .waiting
      lastActivity := asI64 unixSecs
      pty }

/-! ## The daemon's side -/

/-- Touch the handle and offer a line to the input channel. -/
def deliver (session : Session) (line : Text) (unixSecs : Nat) : Session :=
  match session.input.trySend line with
  | .ok input => { session with input, lastActivity := asI64 unixSecs }
  | .error _ => { session with lastActivity := asI64 unixSecs }

/-- Send a shutdown reason, then drop the handle. -/
def dismiss (session : Session) (reason : Reason) : Session :=
  { session with
    shutdown := if session.shutdown = .waiting then .sent reason else session.shutdown
    input := session.input.dropSender }

/-- Drop the handle. -/
def forget (session : Session) : Session :=
  { session with
    shutdown := if session.shutdown = .waiting then .dropped else session.shutdown
    input := session.input.dropSender }

/-! ## The actor -/

/-- The actor's task panics, and everything it owns is dropped. -/
def crash (session : Session) : Session :=
  { session with
    phase := .crashed
    outbound := { session.outbound with queue := session.outbound.queue.dropSender }
    input := session.input.dropReceiver
    pty := { session.pty with
             input := session.pty.input.dropSender
             output := session.pty.output.dropReceiver } }

/-- The actor sets up its outbound queue and enters the loop. -/
def start (session : Session) : Session :=
  if session.limits.outboundChannelDepth = 0 then session.crash
  else { session with phase := .selecting }

variable (strip : List UInt8 → List UInt8)

/-- Leave the loop for a reason: the chunker's rest and the farewell are to be offered. -/
def leaveLoop (session : Session) (reason : Reason) : Session :=
  match session.chunker.flushForce strip with
  | none => session.crash
  | some (chunker, chunks) =>
      { session with chunker, phase := .flushing reason (chunks ++ [farewell reason]) }

/-- The top of the loop: compute the deadline, then poll the shutdown arm. -/
def pollShutdown (session : Session) : Session :=
  match session.chunker.nextDeadline with
  | none => session.crash
  | some _ =>
      match session.shutdown with
      | .waiting => { session with phase := .listening }
      | .sent reason => session.leaveLoop strip reason
      | .dropped => session.leaveLoop strip .shutdown

/-- Whether the silence arm is ready: its timer has fired, which it does not before the deadline. -/
def silenceReady (session : Session) (wake : Wake) : Bool :=
  wake.silence &&
    match session.chunker.nextDeadline with
    | some (some deadline) => deadline ≤ wake.instant
    | _ => true

/-- Poll the idle, silence, input and output arms in this order. -/
def pollArms (session : Session) (wake : Wake) : Session :=
  if wake.tick then
    if asI64 (asSecs session.idleTimeout) < asI64 wake.unixSecs - session.lastActivity then
      session.leaveLoop strip .idle
    else { session with phase := .selecting }
  else if session.silenceReady wake then
    match session.chunker.maybeFlush strip wake.instant with
    | none => session.crash
    | some (chunker, chunks) => { session with chunker, phase := .enqueuing chunks }
  else
    match session.input.recv with
    | some (line, input) =>
        { session with
          input
          lastActivity := asI64 wake.unixSecs
          phase := .forwarding (encodePtyInput line) }
    | none =>
        if session.input.finished then session.leaveLoop strip .inputClosed
        else
          match session.pty.output.recv with
          | some (bytes, output) =>
              let received :=
                { session with
                  lastActivity := asI64 wake.unixSecs
                  pty := { session.pty with output } }
              match received.chunker.push strip bytes wake.instant with
              | none => received.crash
              | some (chunker, chunks) => { received with chunker, phase := .enqueuing chunks }
          | none =>
              if session.pty.output.finished then session.leaveLoop strip .ptyEof
              else { session with phase := .selecting }

/-- One step of handing chunks to the outbound queue. -/
def enqueueNext (session : Session) (chunks : List Text) : Option Session :=
  match session.outbound.attempt with
  | some _ => session.outbound.retry.map fun outbound => { session with outbound }
  | none =>
      match chunks with
      | [] => some { session with phase := .selecting }
      | chunk :: rest =>
          (session.outbound.offer chunk).map fun outbound =>
            { session with outbound, phase := .enqueuing rest }

/-- Pass a payload on, waiting while the PTY input channel is full. -/
def forward (session : Session) (payload : List UInt8) : Option Session :=
  match session.pty.input.trySend payload with
  | .ok input => some { session with pty := { session.pty with input }, phase := .selecting }
  | .error .full => none
  | .error .closed => some (session.leaveLoop strip .ptyClosed)

/-- Offer the next of the last messages; after them the queue's sender is dropped. -/
def flushNext (session : Session) (reason : Reason) (messages : List Text) : Option Session :=
  match messages with
  | [] =>
      some { session with
             outbound := { session.outbound with queue := session.outbound.queue.dropSender }
             phase := .joining reason }
  | message :: rest =>
      (session.outbound.sendLast message).map fun outbound =>
        { session with outbound, phase := .flushing reason rest }

/-- The sender task has ended: close the PTY input and wait for the child. -/
def join (session : Session) (reason : Reason) : Option Session :=
  if session.sender = .done then
    some { session with
           pty := { session.pty with input := session.pty.input.dropSender }
           phase := .reaping reason }
  else none

/-- The child has exited or was killed: return, and drop the receiving ends. -/
def reap (session : Session) (reason : Reason) : Session :=
  { session with
    input := session.input.dropReceiver
    pty := { session.pty with output := session.pty.output.dropReceiver }
    phase := .returned reason }

/-- One step of the actor. -/
def actor (session : Session) (wake : Wake) : Option Session :=
  match session.phase with
  | .starting => some session.start
  | .selecting => some (session.pollShutdown strip)
  | .listening => some (session.pollArms strip wake)
  | .enqueuing chunks => session.enqueueNext chunks
  | .forwarding payload => session.forward strip payload
  | .flushing reason messages => session.flushNext reason messages
  | .joining reason => session.join reason
  | .reaping reason => some (session.reap reason)
  | .returned _ => none
  | .crashed => none

/-! ## The sender task -/

/-- The sender task takes the next chunk, or ends when no more can come. -/
def senderReceive (session : Session) : Option Session :=
  match session.sender with
  | .waiting =>
      match session.outbound.receive with
      | some (chunk, outbound) => some { session with outbound, sender := .holding chunk }
      | none =>
          if session.outbound.queue.finished then some { session with sender := .done } else none
  | _ => none

/-- The limiters let the chunk through, and it is handed to `send_dm`. -/
def senderSend (session : Session) : Option Session :=
  match session.sender with
  | .holding chunk =>
      some { session with sender := .waiting, handed := session.handed ++ [chunk] }
  | _ => none

/-- One step of a session. -/
def step (session : Session) : SessionAction → Option Session
  | .deliver line unixSecs => some (session.deliver line unixSecs)
  | .dismiss reason => some (session.dismiss reason)
  | .forget => some session.forget
  | .actor wake => session.actor strip wake
  | .senderReceive => session.senderReceive
  | .senderSend => session.senderSend
  | .pty action => (session.pty.step action).map fun pty => { session with pty }

end Session

end Loraterm
