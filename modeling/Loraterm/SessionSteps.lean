import Loraterm.Session

/-!
# What a session's steps can do

Every step of the actor is one of twelve kinds, and every step of a session one of nine.  Facts
about sessions are proved kind by kind.  A poll of the arms is told apart once more, with what made
it go its way.
-/

namespace Loraterm

open Utf8Text Mpsc Execution

namespace Session

variable {strip : List UInt8 → List UInt8}

/-- A session nothing happened to yet. -/
structure Fresh (peer : ValidatedPeer) (limits : LimitsConfig) (pty : Pty) (session : Session) :
    Prop where
  depth : 0 < limits.inboundChannelDepth
  peer : session.peer = peer
  phase : session.phase = .starting
  outbound : session.outbound = .new (.empty limits.outboundChannelDepth)
  sender : session.sender = .waiting
  handed : session.handed = []
  input : session.input = .empty limits.inboundChannelDepth
  shutdown : session.shutdown = .waiting
  pty : session.pty = pty

theorem fresh_of_spawn {peer : ValidatedPeer} {limits : LimitsConfig} {chunking : ChunkingConfig}
    {pty : Pty} {unixSecs : Nat} {session : Session}
    (created : spawn peer limits chunking pty unixSecs = some session) :
    session.Fresh peer limits pty := by
  obtain ⟨input, opened, rfl⟩ := Option.map_eq_some_iff.mp created
  obtain ⟨positive, rfl⟩ := Channel.new_eq_some opened
  exact ⟨positive, rfl, rfl, rfl, rfl, rfl, rfl, rfl, rfl⟩

/-- The kinds of steps of an actor. -/
inductive ActorStep (strip : List UInt8 → List UInt8) (session : Session) : Session → Prop
  /-- To another point of the loop, without effect. -/
  | moved {phase : ActorPhase} (within : session.phase.inLoop = true)
      (empty_handed : session.phase.inHand = [])
      (settled : ∀ chunks, session.phase = .enqueuing chunks → session.outbound.attempt = none)
      (target : phase = .selecting ∨ phase = .listening) :
      ActorStep strip session { session with phase }
  | crashed {lastActivity : Int} {output : Channel (List UInt8)}
      (within : session.phase.inLoop = true)
      (settled : ∀ chunks, session.phase ≠ .enqueuing chunks) :
      ActorStep strip session
        { session with lastActivity, pty := { session.pty with output } }.crash
  | left {reason : Reason} {chunker : Chunker} {chunks : List Text}
      (within : session.phase.inLoop = true)
      (settled : ∀ chunks, session.phase ≠ .enqueuing chunks)
      (rest : session.chunker.flushForce strip = some (chunker, chunks)) :
      ActorStep strip session
        { session with chunker, phase := .flushing reason (chunks ++ [farewell reason]) }
  /-- A line was taken from the input channel. -/
  | took {line : Text} {input : Channel Text} {lastActivity : Int}
      (listening : session.phase = .listening)
      (received : session.input.recv = some (line, input)) :
      ActorStep strip session
        { session with input, lastActivity, phase := .forwarding (encodePtyInput line) }
  /-- A silence or some output turned into chunks. -/
  | chunked {chunker : Chunker} {chunks : List Text} {lastActivity : Int}
      {output : Channel (List UInt8)} (listening : session.phase = .listening) :
      ActorStep strip session
        { session with
          chunker, lastActivity, pty := { session.pty with output }, phase := .enqueuing chunks }
  | retried {chunks : List Text} {outbound : Outbound}
      (enqueuing : session.phase = .enqueuing chunks)
      (retry : session.outbound.retry = some outbound) :
      ActorStep strip session { session with outbound }
  | offered {chunk : Text} {rest : List Text} {outbound : Outbound}
      (enqueuing : session.phase = .enqueuing (chunk :: rest))
      (offer : session.outbound.offer chunk = some outbound) :
      ActorStep strip session { session with outbound, phase := .enqueuing rest }
  | forwarded {payload : List UInt8} {input : Channel (List UInt8)}
      (forwarding : session.phase = .forwarding payload)
      (sent : session.pty.input.trySend payload = .ok input) :
      ActorStep strip session { session with pty := { session.pty with input }, phase := .selecting }
  | flushed {reason : Reason} {message : Text} {rest : List Text} {outbound : Outbound}
      (flushing : session.phase = .flushing reason (message :: rest))
      (send : session.outbound.sendLast message = some outbound) :
      ActorStep strip session { session with outbound, phase := .flushing reason rest }
  | closed {reason : Reason} (flushing : session.phase = .flushing reason []) :
      ActorStep strip session
        { session with
          outbound := { session.outbound with queue := session.outbound.queue.dropSender }
          phase := .joining reason }
  | joined {reason : Reason} (joining : session.phase = .joining reason)
      (done : session.sender = .done) :
      ActorStep strip session
        { session with
          pty := { session.pty with input := session.pty.input.dropSender }
          phase := .reaping reason }
  | reaped {reason : Reason} (reaping : session.phase = .reaping reason) :
      ActorStep strip session (session.reap reason)

theorem ActorStep.leaveLoop {session : Session} (reason : Reason)
    (within : session.phase.inLoop = true)
    (settled : ∀ chunks, session.phase ≠ .enqueuing chunks) :
    ActorStep strip session (session.leaveLoop strip reason) := by
  rw [Session.leaveLoop]
  cases rest : session.chunker.flushForce strip with
  | none => exact .crashed within settled
  | some pair => exact .left within settled rest

theorem leaveLoop_inLoop (strip : List UInt8 → List UInt8) (session : Session) (reason : Reason) :
    (session.leaveLoop strip reason).phase.inLoop = false := by
  rw [leaveLoop]
  split
  · rfl
  · rfl

theorem ActorStep.pollShutdown {session : Session} (selecting : session.phase = .selecting) :
    ActorStep strip session (session.pollShutdown strip) := by
  have within : session.phase.inLoop = true := by rw [selecting]; rfl
  have settled : ∀ chunks, session.phase ≠ .enqueuing chunks := by simp [selecting]
  simp only [Session.pollShutdown]
  split
  · exact .crashed within settled
  · split
    · exact .moved within (by rw [selecting]; rfl) (by simp [selecting]) (.inr rfl)
    · exact .leaveLoop _ within settled
    · exact .leaveLoop _ within settled

/-- What a poll of the idle, silence, input and output arms does, in their order. -/
inductive Polled (strip : List UInt8 → List UInt8) (session : Session) (wake : Wake) :
    Session → Prop
  | idledOut (tick : wake.tick = true)
      (exceeded : asI64 (asSecs session.idleTimeout) < asI64 wake.unixSecs - session.lastActivity) :
      Polled strip session wake (session.leaveLoop strip .idle)
  /-- The idle timer ticked too early, or nothing was ready. -/
  | parked : Polled strip session wake { session with phase := .selecting }
  | overflowed (no_tick : wake.tick = false) (silence : session.silenceReady wake = true)
      (panic : session.chunker.maybeFlush strip wake.instant = none) :
      Polled strip session wake session.crash
  | flushed {chunker : Chunker} {chunks : List Text} :
      Polled strip session wake { session with chunker, phase := .enqueuing chunks }
  | took {line : Text} {input : Channel Text} (no_tick : wake.tick = false)
      (no_silence : session.silenceReady wake = false)
      (received : session.input.recv = some (line, input)) :
      Polled strip session wake
        { session with
          input
          lastActivity := asI64 wake.unixSecs
          phase := .forwarding (encodePtyInput line) }
  /-- An arm after the input arm ended the loop. -/
  | ended {reason : Reason} (empty : session.input.recv = none) :
      Polled strip session wake (session.leaveLoop strip reason)
  | outputOverflowed {lastActivity : Int} {output : Channel (List UInt8)}
      (empty : session.input.recv = none) :
      Polled strip session wake { session with lastActivity, pty := { session.pty with output } }.crash
  | pushed {chunker : Chunker} {chunks : List Text} {lastActivity : Int}
      {output : Channel (List UInt8)} :
      Polled strip session wake
        { session with
          chunker, lastActivity, pty := { session.pty with output }, phase := .enqueuing chunks }

theorem polled_pollArms (strip : List UInt8 → List UInt8) (session : Session) (wake : Wake) :
    Polled strip session wake (session.pollArms strip wake) := by
  simp only [Session.pollArms]
  split
  · rename_i tick
    split
    · rename_i exceeded
      exact .idledOut tick exceeded
    · exact .parked
  · rename_i no_tick
    have no_tick : wake.tick = false := by simpa using no_tick
    split
    · rename_i silence
      split
      · rename_i panic
        exact .overflowed no_tick silence panic
      · exact .flushed
    · rename_i no_silence
      split
      · rename_i line input received
        exact .took no_tick (by simpa using no_silence) received
      · rename_i empty
        split
        · exact .ended empty
        · split
          · split
            · exact .outputOverflowed empty
            · exact .pushed
          · split
            · exact .ended empty
            · exact .parked

theorem ActorStep.pollArms {session : Session} (wake : Wake)
    (listening : session.phase = .listening) :
    ActorStep strip session (session.pollArms strip wake) := by
  have within : session.phase.inLoop = true := by rw [listening]; rfl
  have settled : ∀ chunks, session.phase ≠ .enqueuing chunks := by simp [listening]
  have polled := polled_pollArms strip session wake
  generalize session.pollArms strip wake = next at polled
  cases polled with
  | idledOut tick exceeded => exact .leaveLoop _ within settled
  | parked => exact .moved within (by rw [listening]; rfl) (by simp [listening]) (.inl rfl)
  | overflowed no_tick silence panic => exact .crashed within settled
  | flushed => exact .chunked listening
  | took no_tick no_silence received => exact .took listening received
  | ended empty => exact .leaveLoop _ within settled
  | outputOverflowed empty => exact .crashed within settled
  | pushed => exact .chunked listening

theorem ActorStep.enqueueNext {session next : Session} {chunks : List Text}
    (enqueuing : session.phase = .enqueuing chunks)
    (stepped : session.enqueueNext chunks = some next) : ActorStep strip session next := by
  simp only [Session.enqueueNext] at stepped
  split at stepped
  · obtain ⟨outbound, retry, rfl⟩ := Option.map_eq_some_iff.mp stepped
    exact .retried enqueuing retry
  · rename_i resting
    split at stepped
    · obtain rfl := Option.some.inj stepped
      exact .moved (by rw [enqueuing]; rfl) (by rw [enqueuing]; rfl) (fun _ _ => resting) (.inl rfl)
    · obtain ⟨outbound, offer, rfl⟩ := Option.map_eq_some_iff.mp stepped
      exact .offered enqueuing offer

theorem ActorStep.forward {session next : Session} {payload : List UInt8}
    (forwarding : session.phase = .forwarding payload)
    (stepped : session.forward strip payload = some next) : ActorStep strip session next := by
  simp only [Session.forward] at stepped
  split at stepped
  · rename_i input sent
    obtain rfl := Option.some.inj stepped
    exact .forwarded forwarding sent
  · cases stepped
  · obtain rfl := Option.some.inj stepped
    exact .leaveLoop _ (by rw [forwarding]; rfl) (by simp [forwarding])

theorem ActorStep.flushNext {session next : Session} {reason : Reason} {messages : List Text}
    (flushing : session.phase = .flushing reason messages)
    (stepped : session.flushNext reason messages = some next) : ActorStep strip session next := by
  cases messages with
  | nil =>
      obtain rfl := Option.some.inj stepped
      exact .closed flushing
  | cons message rest =>
      obtain ⟨outbound, send, rfl⟩ := Option.map_eq_some_iff.mp stepped
      exact .flushed flushing send

theorem actorStep_of_actor {session next : Session} {wake : Wake}
    (stepped : session.actor strip wake = some next) : ActorStep strip session next := by
  simp only [actor] at stepped
  split at stepped
  · rename_i starting
    obtain rfl := Option.some.inj stepped
    have within : session.phase.inLoop = true := by rw [starting]; rfl
    rw [start]
    split
    · exact .crashed within (by simp [starting])
    · exact .moved within (by rw [starting]; rfl) (by simp [starting]) (.inl rfl)
  · rename_i selecting
    obtain rfl := Option.some.inj stepped
    exact .pollShutdown selecting
  · rename_i listening
    obtain rfl := Option.some.inj stepped
    exact .pollArms wake listening
  · rename_i enqueuing
    exact .enqueueNext enqueuing stepped
  · rename_i forwarding
    exact .forward forwarding stepped
  · rename_i flushing
    exact .flushNext flushing stepped
  · rename_i joining
    simp only [join] at stepped
    split at stepped
    · rename_i done
      obtain rfl := Option.some.inj stepped
      exact .joined joining done
    · cases stepped
  · rename_i reaping
    obtain rfl := Option.some.inj stepped
    exact .reaped reaping
  · cases stepped
  · cases stepped

/-! ## The other parties -/

/-- The kinds of steps of a session. -/
inductive SessionStep (strip : List UInt8 → List UInt8) (session : Session) :
    SessionAction → Session → Prop
  /-- A line found a slot of the input channel. -/
  | delivered {line : Text} {unixSecs : Nat} {input : Channel Text}
      (sent : session.input.trySend line = .ok input) :
      SessionStep strip session (.deliver line unixSecs)
        { session with input, lastActivity := asI64 unixSecs }
  | refused {line : Text} {unixSecs : Nat} :
      SessionStep strip session (.deliver line unixSecs)
        { session with lastActivity := asI64 unixSecs }
  | dismissed {reason : Reason} :
      SessionStep strip session (.dismiss reason) (session.dismiss reason)
  | forgotten : SessionStep strip session .forget session.forget
  | acted {wake : Wake} {next : Session} (stepped : session.actor strip wake = some next) :
      SessionStep strip session (.actor wake) next
  | received {chunk : Text} {outbound : Outbound} (waiting : session.sender = .waiting)
      (taken : session.outbound.receive = some (chunk, outbound)) :
      SessionStep strip session .senderReceive { session with outbound, sender := .holding chunk }
  | drained (waiting : session.sender = .waiting)
      (finished : session.outbound.queue.finished = true) :
      SessionStep strip session .senderReceive { session with sender := .done }
  | handed {chunk : Text} (holding : session.sender = .holding chunk) :
      SessionStep strip session .senderSend
        { session with sender := .waiting, handed := session.handed ++ [chunk] }
  | bridged {action : PtyAction} {pty : Pty} (stepped : session.pty.step action = some pty) :
      SessionStep strip session (.pty action) { session with pty }

theorem SessionStep.deliver (session : Session) (line : Text) (unixSecs : Nat) :
    SessionStep strip session (.deliver line unixSecs) (session.deliver line unixSecs) := by
  simp only [Session.deliver]
  cases sent : session.input.trySend line with
  | ok input => exact .delivered sent
  | error refusal => exact .refused

theorem SessionStep.senderReceive {session next : Session}
    (stepped : session.senderReceive = some next) : SessionStep strip session .senderReceive next := by
  simp only [Session.senderReceive] at stepped
  split at stepped
  · rename_i waiting
    split at stepped
    · rename_i chunk outbound taken
      obtain rfl := Option.some.inj stepped
      exact .received waiting taken
    · split at stepped
      · rename_i finished
        obtain rfl := Option.some.inj stepped
        exact .drained waiting finished
      · cases stepped
  · cases stepped

theorem SessionStep.senderSend {session next : Session}
    (stepped : session.senderSend = some next) : SessionStep strip session .senderSend next := by
  simp only [Session.senderSend] at stepped
  split at stepped
  · rename_i chunk holding
    obtain rfl := Option.some.inj stepped
    exact .handed holding
  · cases stepped

theorem sessionStep_of_step {session next : Session} {action : SessionAction}
    (stepped : session.step strip action = some next) : SessionStep strip session action next := by
  cases action with
  | deliver line unixSecs =>
      obtain rfl := Option.some.inj stepped
      exact .deliver session line unixSecs
  | dismiss reason =>
      obtain rfl := Option.some.inj stepped
      exact .dismissed
  | forget =>
      obtain rfl := Option.some.inj stepped
      exact .forgotten
  | actor wake => exact .acted stepped
  | senderReceive => exact .senderReceive stepped
  | senderSend => exact .senderSend stepped
  | pty action =>
      obtain ⟨pty, pty_stepped, rfl⟩ := Option.map_eq_some_iff.mp stepped
      exact .bridged pty_stepped

/-! ## What stays -/

/-- An actor whose task has ended stays so. -/
theorem over_of_step {session next : Session} {action : SessionAction}
    (stepped : session.step strip action = some next) (is_over : session.phase.isOver = true) :
    next.phase = session.phase := by
  cases sessionStep_of_step stepped with
  | acted acted =>
      simp only [actor] at acted
      split at acted <;> simp_all [ActorPhase.isOver]
  | _ => rfl

theorem alive_before {session next : Session} {action : SessionAction}
    (stepped : session.step strip action = some next) (alive : next.phase.isOver = false) :
    session.phase.isOver = false := by
  cases is_over : session.phase.isOver with
  | false => rfl
  | true =>
      rw [over_of_step stepped is_over, is_over] at alive
      cases alive

theorem ActorStep.peer {session next : Session} (stepped : ActorStep strip session next) :
    next.peer = session.peer := by
  cases stepped <;> rfl

theorem peer_of_step {session next : Session} {action : SessionAction}
    (stepped : session.step strip action = some next) : next.peer = session.peer := by
  cases sessionStep_of_step stepped with
  | acted acted => exact (actorStep_of_actor acted).peer
  | _ => rfl

theorem ActorStep.limits {session next : Session} (stepped : ActorStep strip session next) :
    next.limits = session.limits := by
  cases stepped <;> rfl

theorem limits_of_step {session next : Session} {action : SessionAction}
    (stepped : session.step strip action = some next) : next.limits = session.limits := by
  cases sessionStep_of_step stepped with
  | acted acted => exact (actorStep_of_actor acted).limits
  | _ => rfl

theorem ActorStep.accepted {session next : Session} (stepped : ActorStep strip session next) :
    next.input.accepted = session.input.accepted := by
  cases stepped with
  | took listening received => exact Channel.accepted_recv received
  | crashed within settled => exact Channel.accepted_dropReceiver _
  | reaped reaping => exact Channel.accepted_dropReceiver _
  | _ => rfl

/-- Only the daemon's sends add to what the input channel accepted. -/
theorem accepted_of_step {session next : Session} {action : SessionAction}
    (stepped : session.step strip action = some next) :
    next.input.accepted = session.input.accepted ∨
      ∃ line unixSecs, action = .deliver line unixSecs ∧
        next.input.accepted = session.input.accepted ++ [line] := by
  cases sessionStep_of_step stepped with
  | @delivered line unixSecs input sent =>
      exact .inr ⟨line, unixSecs, rfl, Channel.accepted_trySend sent⟩
  | acted acted => exact .inl (actorStep_of_actor acted).accepted
  | _ => exact .inl rfl

end Session

namespace ActorPhase

theorem offers_of_inLoop {phase : ActorPhase} (within : phase.inLoop = true) :
    phase.offers = true := by
  cases phase <;> first | rfl | cases within

theorem not_over_of_inLoop {phase : ActorPhase} (within : phase.inLoop = true) :
    phase.isOver = false := by
  cases phase <;> first | rfl | cases within

theorem leaving_iff {phase : ActorPhase} :
    phase.leaving = true ↔ phase.inLoop = false ∧ phase.isOver = false := by
  cases phase <;> simp [leaving, inLoop, isOver]

end ActorPhase

end Loraterm
