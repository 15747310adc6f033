import Loraterm.LiveHandles
import Loraterm.TrustBoundary

/-!
# The end of a session

Out of its loop the actor offers the rest of its output and a farewell to the outbound queue,
without waiting, then waits for the sender task, which hands over everything the queue accepted.
-/

namespace Loraterm

open Utf8Text Mpsc Execution

namespace Session

/-- One step of the actor leaves the loop for a reason, with some chunks of the final flush. -/
structure Leaves (strip : List UInt8 → List UInt8) (before left : Session) (reason : Reason)
    (chunks : List Text) : Prop where
  within : before.phase.inLoop = true
  stepped : ∃ wake, before.step strip (.actor wake) = some left
  rest : ∃ chunker, before.chunker.flushForce strip = some (chunker, chunks)
  flushing : left.phase = .flushing reason (chunks ++ [farewell reason])

/-- The session ends for a reason, with these messages still to be offered. -/
def Ending (session : Session) (reason : Reason) : List Text → Prop
  | [] =>
      session.phase = .flushing reason [] ∨ session.phase = .joining reason ∨
        session.sender = .done ∧
          (session.phase = .reaping reason ∨ session.phase = .returned reason)
  | messages => session.phase = .flushing reason messages

/-- Some of the messages offered so far were accepted, in their order, and all of them if the queue
had room for every message when the loop was left. -/
def OfferedInOrder (left session : Session) (reason : Reason) (messages : List Text) : Prop :=
  ∃ offered rest sent, messages = offered ++ rest ∧ session.Ending reason rest ∧
    sent.Sublist offered ∧
    session.outbound.queue.accepted = left.outbound.queue.accepted ++ sent ∧
    session.outbound.queue.capacity = left.outbound.queue.capacity ∧
    (left.outbound.queue.items.length + messages.length ≤ left.outbound.queue.capacity →
      sent = offered ∧
        session.outbound.queue.items.length ≤ left.outbound.queue.items.length + offered.length)

variable {strip : List UInt8 → List UInt8}

theorem Ending.cases {session : Session} {reason : Reason} {messages : List Text}
    (ending : session.Ending reason messages) :
    session.phase = .flushing reason messages ∨
      messages = [] ∧ (session.phase = .joining reason ∨
        session.sender = .done ∧
          (session.phase = .reaping reason ∨ session.phase = .returned reason)) := by
  cases messages with
  | nil =>
      obtain flushing | after := ending
      · exact .inl flushing
      · exact .inr ⟨rfl, after⟩
  | cons message rest => exact .inl ending

theorem Ending.of_flushing {session : Session} {reason : Reason} {messages : List Text}
    (flushing : session.phase = .flushing reason messages) : session.Ending reason messages := by
  cases messages with
  | nil => exact .inl flushing
  | cons message rest => exact flushing

theorem not_inLoop_of_ending {session : Session} {reason : Reason} {messages : List Text}
    (ending : session.Ending reason messages) : session.phase.inLoop = false := by
  obtain here | ⟨-, here | ⟨-, here | here⟩⟩ := ending.cases
  all_goals
    rw [here]
    rfl

theorem eq_of_ending_flushing {session : Session} {reason other : Reason}
    {messages others : List Text} (ending : session.Ending reason messages)
    (flushing : session.phase = .flushing other others) : reason = other ∧ messages = others := by
  obtain same | ⟨-, joining | ⟨-, reaping | returned⟩⟩ := ending.cases
  · exact ActorPhase.flushing.inj (same.symm.trans flushing)
  · cases joining.symm.trans flushing
  · cases reaping.symm.trans flushing
  · cases returned.symm.trans flushing

theorem eq_of_ending_joining {session : Session} {reason other : Reason} {messages : List Text}
    (ending : session.Ending reason messages) (joining : session.phase = .joining other) :
    reason = other ∧ messages = [] := by
  obtain flushing | ⟨empty, same | ⟨-, reaping | returned⟩⟩ := ending.cases
  · cases flushing.symm.trans joining
  · exact ⟨ActorPhase.joining.inj (same.symm.trans joining), empty⟩
  · cases reaping.symm.trans joining
  · cases returned.symm.trans joining

theorem eq_of_ending_reaping {session : Session} {reason other : Reason} {messages : List Text}
    (ending : session.Ending reason messages) (reaping : session.phase = .reaping other) :
    reason = other ∧ messages = [] ∧ session.sender = .done := by
  obtain flushing | ⟨empty, joining | ⟨done, same | returned⟩⟩ := ending.cases
  · cases flushing.symm.trans reaping
  · cases joining.symm.trans reaping
  · exact ⟨ActorPhase.reaping.inj (same.symm.trans reaping), empty, done⟩
  · cases returned.symm.trans reaping

theorem Ending.of_same {session next : Session} {reason : Reason} {messages : List Text}
    (ending : session.Ending reason messages) (phase : next.phase = session.phase)
    (sender : session.sender = .done → next.sender = .done) : next.Ending reason messages := by
  obtain flushing | ⟨rfl, joining | ⟨done, gone⟩⟩ := ending.cases
  · exact .of_flushing (phase.trans flushing)
  · exact .inr (.inl (phase.trans joining))
  · exact .inr (.inr ⟨sender done, by rw [phase]; exact gone⟩)

/-- Nothing but the queue and the ending matter. -/
theorem OfferedInOrder.of_same {left session next : Session} {reason : Reason}
    {messages : List Text} (offered_in_order : OfferedInOrder left session reason messages)
    (phase : next.phase = session.phase) (outbound : next.outbound = session.outbound)
    (sender : session.sender = .done → next.sender = .done) :
    OfferedInOrder left next reason messages := by
  obtain ⟨offered, rest, sent, messages_eq, ending, facts⟩ := offered_in_order
  rw [← outbound] at facts
  exact ⟨offered, rest, sent, messages_eq, ending.of_same phase sender, facts⟩

theorem OfferedInOrder.actorStep {left session next : Session} {reason : Reason}
    {messages : List Text} (offered_in_order : OfferedInOrder left session reason messages)
    (sound : session.Sound) (stepped : ActorStep strip session next) :
    OfferedInOrder left next reason messages := by
  obtain ⟨offered, rest, sent, messages_eq, ending, sublist, accepted, capacity, fits⟩ :=
    offered_in_order
  have out := not_inLoop_of_ending ending
  cases stepped with
  | moved within => rw [out] at within; cases within
  | crashed within => rw [out] at within; cases within
  | left within => rw [out] at within; cases within
  | took listening => rw [listening] at out; cases out
  | chunked listening => rw [listening] at out; cases out
  | retried enqueuing => rw [enqueuing] at out; cases out
  | offered enqueuing => rw [enqueuing] at out; cases out
  | forwarded forwarding => rw [forwarding] at out; cases out
  | @flushed other message others outbound flushing send =>
      obtain ⟨rfl, rfl⟩ := eq_of_ending_flushing ending flushing
      have after : Session.Ending { session with outbound, phase := .flushing reason others } reason
          others := .of_flushing rfl
      obtain ⟨-, ⟨queue, queued, rfl⟩ | ⟨refusal, refused, rfl⟩⟩ := Outbound.sendLast_cases send
      · obtain ⟨-, -, same_capacity, -, items_eq, -⟩ := Channel.trySend_ok queued
        refine ⟨offered ++ [message], others, sent ++ [message], by simp [messages_eq], after,
          sublist.append_right [message], ?_, same_capacity.trans capacity, fun room => ?_⟩
        · rw [Channel.accepted_trySend queued, accepted, List.append_assoc]
        · obtain ⟨rfl, short⟩ := fits room
          refine ⟨rfl, ?_⟩
          rw [items_eq, List.length_append, List.length_append]
          omega
      · refine ⟨offered ++ [message], others, sent, by simp [messages_eq], after,
          sublist.trans (List.sublist_append_left offered [message]), accepted, capacity,
          fun room => ?_⟩
        -- a queue that had room for all messages has a slot left for this one
        obtain ⟨rfl, short⟩ := fits room
        have full : session.outbound.queue.Full :=
          Channel.full_of_refused refused sound.queue.alive
        rw [messages_eq, List.length_append, List.length_cons] at room
        rw [Channel.Full, capacity] at full
        omega
  | closed flushing =>
      obtain ⟨rfl, rfl⟩ := eq_of_ending_flushing ending flushing
      exact ⟨offered, [], sent, messages_eq, .inr (.inl rfl), sublist, accepted, capacity, fits⟩
  | joined joining done =>
      obtain ⟨rfl, rfl⟩ := eq_of_ending_joining ending joining
      exact ⟨offered, [], sent, messages_eq, .inr (.inr ⟨done, .inl rfl⟩), sublist, accepted,
        capacity, fits⟩
  | reaped reaping =>
      obtain ⟨rfl, rfl, done⟩ := eq_of_ending_reaping ending reaping
      exact ⟨offered, [], sent, messages_eq, .inr (.inr ⟨done, .inr rfl⟩), sublist, accepted,
        capacity, fits⟩

/-- The sender task takes a message, which frees a slot. -/
theorem OfferedInOrder.received {left session : Session} {reason : Reason} {messages : List Text}
    {chunk : Text} {outbound : Outbound}
    (offered_in_order : OfferedInOrder left session reason messages)
    (waiting : session.sender = .waiting)
    (taken : session.outbound.receive = some (chunk, outbound)) :
    OfferedInOrder left { session with outbound, sender := .holding chunk } reason messages := by
  obtain ⟨queue, queue_received, rfl⟩ := Outbound.receive_cases taken
  obtain ⟨items_eq, same_capacity, -⟩ := Channel.recv_eq_some queue_received
  obtain ⟨offered, rest, sent, messages_eq, ending, sublist, accepted, capacity, fits⟩ :=
    offered_in_order
  have never_done : session.sender ≠ .done := by simp [waiting]
  refine ⟨offered, rest, sent, messages_eq, ending.of_same rfl (fun done => (never_done done).elim),
    sublist, (Channel.accepted_recv queue_received).trans accepted, same_capacity.trans capacity,
    fun room => ?_⟩
  obtain ⟨all, short⟩ := fits room
  have shorter : queue.items.length ≤ left.outbound.queue.items.length + offered.length := by
    rw [items_eq, List.length_cons] at short
    omega
  exact ⟨all, shorter⟩

theorem OfferedInOrder.step {left session next : Session} {action : SessionAction}
    {reason : Reason} {messages : List Text}
    (offered_in_order : OfferedInOrder left session reason messages) (sound : session.Sound)
    (stepped : session.step strip action = some next) :
    OfferedInOrder left next reason messages := by
  cases sessionStep_of_step stepped with
  | acted acted => exact offered_in_order.actorStep sound (actorStep_of_actor acted)
  | received waiting taken => exact offered_in_order.received waiting taken
  | drained waiting finished => exact offered_in_order.of_same rfl rfl fun _ => rfl
  | handed holding =>
      have never_done : session.sender ≠ .done := by simp [holding]
      exact offered_in_order.of_same rfl rfl fun done => (never_done done).elim
  | _ => exact offered_in_order.of_same rfl rfl id

/-- The shutdown arm ends the loop with the reason that was sent. -/
theorem Leaves.reason_eq {before left : Session} {reason told : Reason} {chunks : List Text}
    (leaves : before.Leaves strip left reason chunks) (selecting : before.phase = .selecting)
    (shutdown : before.shutdown = .sent told) : reason = told := by
  obtain ⟨wake, stepped⟩ := leaves.stepped
  obtain ⟨chunker, rest⟩ := leaves.rest
  have flushing := leaves.flushing
  simp only [step, actor, selecting, pollShutdown, shutdown, leaveLoop, rest] at stepped
  obtain rfl := Option.some.inj stepped
  split at flushing
  · cases flushing
  · exact (ActorPhase.flushing.inj flushing).1.symm

end Session

namespace Daemon

variable {strip : List UInt8 → List UInt8} {reader : JsonReader}

/-- The loop is left, and every peer was told. -/
def Closed (daemon : Daemon) : Prop := daemon.phase = .closing ∨ daemon.phase = .returned

/-- Whom the daemon told what: a live session whose peer is not listed any more, and every live
session once the daemon has left its loop; `revoked` at any time, `shutdown` only then. -/
structure ToldInTime (daemon : Daemon) : Prop where
  unlisted : ∀ session ∈ daemon.sessions, session.phase.isOver = false →
    session.peer.pubkey ∉ daemon.whitelist.keys → ¬ session.Untold
  closed : daemon.Closed → ∀ session ∈ daemon.sessions, session.phase.isOver = false →
    ¬ session.Untold
  reasons : ∀ session ∈ daemon.sessions, ∀ reason, session.shutdown = .sent reason →
    reason = .revoked ∨ reason = .shutdown ∧ daemon.Closed

theorem closed_of_step {daemon next : Daemon} {action : DaemonAction}
    (stepped : daemon.step strip reader action = some next) (closed : daemon.Closed) :
    next.Closed ∧ (next.sessions = daemon.sessions ∨
      ∃ index act session moved, daemon.sessions[index]? = some session ∧
        session.step strip act = some moved ∧ next.sessions = daemon.sessions.set index moved) := by
  have not_running : daemon.phase ≠ .running := by
    obtain phase | phase := closed <;> simp [phase]
  cases action with
  | frame name data terminal unixSecs => simp [step, not_running] at stepped
  | reload loaded => simp [step, not_running] at stepped
  | stop => simp [step, not_running] at stepped
  | send unixSecs => obtain phase | phase := closed <;> simp [step, phase] at stepped
  | finish =>
      simp only [step] at stepped
      split at stepped
      · obtain rfl := Option.some.inj stepped
        exact ⟨.inr rfl, .inl rfl⟩
      · cases stepped
  | session index act =>
      simp only [step] at stepped
      split at stepped
      · obtain ⟨session, at_index, stepped⟩ := Option.bind_eq_some_iff.mp stepped
        obtain ⟨moved, session_stepped, rfl⟩ := Option.map_eq_some_iff.mp stepped
        exact ⟨closed, .inr ⟨index, act, session, moved, at_index, session_stepped, rfl⟩⟩
      · cases stepped

theorem closed_before {daemon next : Daemon} {action : DaemonAction}
    (stepped : DaemonStep strip reader daemon action next) (closed : next.Closed) :
    daemon.Closed ∨ next = daemon.stop := by
  cases stepped with
  | ignored => exact .inl closed
  | broken => exact .inl closed
  | refused brings =>
      rw [Closed, phase_dropStale] at closed
      exact .inl closed
  | panicked brings => obtain phase | phase := closed <;> cases phase
  | kept brings registered => obtain phase | phase := closed <;> cases phase
  | spawned brings missing created => obtain phase | phase := closed <;> cases phase
  | sent dispatching =>
      rw [Closed, send] at closed
      split at closed <;> obtain phase | phase := closed <;> cases phase
  | reloaded =>
      rw [Closed, phase_reload] at closed
      exact .inl closed
  | stopped => exact .inr rfl
  | finished closing => exact .inl (.inl closing)
  | moved own at_index session_stepped => exact .inl closed

theorem told_step {daemon next : Daemon} {action : DaemonAction} (tended : daemon.Tended)
    (told : daemon.Closed → ∀ session ∈ daemon.sessions, session.phase.isOver = false →
      ¬ session.Untold)
    (stepped : daemon.step strip reader action = some next) :
    next.Closed → ∀ session ∈ next.sessions, session.phase.isOver = false → ¬ session.Untold := by
  intro closed now member alive untold
  obtain before | rfl := closed_before (daemonStep_of_step stepped) closed
  · obtain ⟨-, same | ⟨index, act, session, moved, at_index, session_stepped, sessions_eq⟩⟩ :=
      closed_of_step stepped before
    · rw [same] at member
      exact told before now member alive untold
    · rw [sessions_eq] at member
      obtain still | rfl := List.mem_or_eq_of_mem_set member
      · exact told before now still alive untold
      · exact told before session (List.mem_of_getElem? at_index)
          (Session.alive_before session_stepped alive)
          (Session.untold_of_step session_stepped untold)
  · obtain ⟨index, now_at⟩ := List.mem_iff_getElem?.mp member
    obtain ⟨session, -, ⟨-, said⟩ | ⟨reason, -, said⟩⟩ := tended.told_stop now_at alive
    · exact untold _ said
    · exact untold _ said

theorem reasons_step {daemon next : Daemon} {action : DaemonAction}
    (reasons : ∀ session ∈ daemon.sessions, ∀ reason, session.shutdown = .sent reason →
      reason = .revoked ∨ reason = .shutdown ∧ daemon.Closed)
    (stepped : daemon.step strip reader action = some next) :
    ∀ session ∈ next.sessions, ∀ reason, session.shutdown = .sent reason →
      reason = .revoked ∨ reason = .shutdown ∧ next.Closed := by
  intro now member reason said
  have still : ∀ session ∈ daemon.sessions, session.shutdown = .sent reason →
      reason = .revoked ∨ reason = .shutdown ∧ next.Closed := by
    intro session before said
    obtain revoked | ⟨shutdown, closed⟩ := reasons session before reason said
    · exact .inl revoked
    · exact .inr ⟨shutdown, (closed_of_step stepped closed).1⟩
  obtain ⟨index, now_at⟩ := List.mem_iff_getElem?.mp member
  obtain ⟨session, at_index, rfl | ⟨act, session_stepped, caused⟩⟩ | ⟨-, peer, terminal, _, new⟩ :=
    session_of_step (daemonStep_of_step stepped) now_at
  · exact still now (List.mem_of_getElem? at_index) said
  · obtain before | rfl := Session.sent_cases session_stepped said
    · exact still session (List.mem_of_getElem? at_index) before
    · obtain ⟨-, revoked | ⟨shutdown, rfl⟩⟩ := caused
      · exact .inl revoked
      · right
        refine ⟨shutdown, ?_⟩
        simp only [step] at stepped
        split at stepped
        · obtain rfl := Option.some.inj stepped
          exact .inl rfl
        · cases stepped
  · rw [(Session.fresh_of_spawn new).shutdown] at said
    cases said

theorem toldInTime_of_run {limits : LimitsConfig} {chunking : ChunkingConfig}
    {whitelist : Whitelist} {schedule : List DaemonAction} {daemon : Daemon}
    (ran : run (step strip reader) (new limits chunking whitelist) schedule = some daemon) :
    daemon.ToldInTime := by
  have tended := tended_of_run ran
  have guarded := guarded_of_run ran
  have told_preserved : ∀ (before : Daemon) (action : DaemonAction) (next : Daemon),
      before.Tended ∧ (before.Closed → ∀ session ∈ before.sessions, session.phase.isOver = false →
          ¬ session.Untold) →
        before.step strip reader action = some next →
          next.Tended ∧ (next.Closed → ∀ session ∈ next.sessions, session.phase.isOver = false →
            ¬ session.Untold) :=
    fun _ _ _ holds stepped => ⟨holds.1.step (daemonStep_of_step stepped), told_step holds.1 holds.2 stepped⟩
  have told := invariant_of_run told_preserved ran ⟨tended_new _ _ _, by simp [new]⟩
  have reasons_preserved : ∀ (before : Daemon) (action : DaemonAction) (next : Daemon),
      (∀ session ∈ before.sessions, ∀ reason, session.shutdown = .sent reason →
          reason = .revoked ∨ reason = .shutdown ∧ before.Closed) →
        before.step strip reader action = some next →
          ∀ session ∈ next.sessions, ∀ reason, session.shutdown = .sent reason →
            reason = .revoked ∨ reason = .shutdown ∧ next.Closed :=
    fun _ _ _ reasons stepped => reasons_step reasons stepped
  have reasons := invariant_of_run reasons_preserved ran (by simp [new])
  refine ⟨fun session member alive unlisted untold => ?_, told.2, reasons⟩
  obtain ⟨index, at_index⟩ := List.mem_iff_getElem?.mp member
  have handled := tended.handled index session at_index (tended.waiting member untold alive) alive
  have registered : session.peer.pubkey ∈ daemon.peers :=
    AList.lookup_isSome.mp (Option.isSome_iff_exists.mpr ⟨index, handled⟩)
  exact unlisted (guarded.keys _ registered).2

end Daemon

end Loraterm
