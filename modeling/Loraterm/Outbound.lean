import Loraterm.Library.Execution
import Loraterm.Library.Mpsc
import Loraterm.Library.Utf8Text

/-!
# The outbound queue

Chunks reach the sender task through a bounded queue.  `enqueue_chunk` never waits: a chunk that
finds the queue full is dropped, and a marker is offered in its place, five times in a row.  The
sender takes messages in between at its own pace.
-/

namespace Loraterm

open Utf8Text Mpsc Execution

/-- The text that stands for dropped chunks. -/
def backlogMarker : Text := "[output truncated — sender backlog]".toList

/-- What happens to the queue, in the order it happens. -/
inductive QueueEvent
  /-- An ordinary chunk found a slot. -/
  | queued (chunk : Text)
  /-- An ordinary chunk was refused by the full queue. -/
  | dropped (chunk : Text)
  /-- The backlog marker found a slot. -/
  | marked
  /-- The last marker attempt failed. -/
  | gaveUp
  /-- The sender task took a message. -/
  | received (message : Text)
  deriving DecidableEq, Repr

/-- The message an event puts into the queue. -/
def QueueEvent.sent : QueueEvent → Option Text
  | .queued chunk => some chunk
  | .marked => some backlogMarker
  | _ => none

/-- Whether an event puts an ordinary chunk into the queue. -/
def QueueEvent.isQueued : QueueEvent → Bool
  | .queued _ => true
  | _ => false

/-- The queue between the actor and its sender task. -/
structure Outbound where
  /-- The bounded channel. -/
  queue : Channel Text
  /-- Counter of the marker loop, while `enqueue_chunk` is in it. -/
  attempt : Option Nat
  /-- What happened so far. -/
  history : List QueueEvent
  deriving DecidableEq

namespace Outbound

/-- The queue of a new session. -/
def new (queue : Channel Text) : Outbound := { queue, attempt := none, history := [] }

/-- `enqueue_chunk` up to its first send. -/
def offer (outbound : Outbound) (chunk : Text) : Option Outbound :=
  if outbound.attempt.isSome then none
  else
    match outbound.queue.trySend chunk with
    | .ok queue => some { outbound with queue, history := outbound.history ++ [.queued chunk] }
    | .error .full =>
        some { outbound with attempt := some 1, history := outbound.history ++ [.dropped chunk] }
    | .error .closed => some outbound

/-- One turn of the marker loop of `enqueue_chunk`. -/
def retry (outbound : Outbound) : Option Outbound :=
  match outbound.attempt with
  | none => none
  | some dropped =>
      match outbound.queue.trySend backlogMarker with
      | .ok queue =>
          some { queue, attempt := none, history := outbound.history ++ [.marked] }
      | .error _ =>
          if 5 < dropped + 1 then
            some { outbound with attempt := none, history := outbound.history ++ [.gaveUp] }
          else some { outbound with attempt := some (dropped + 1) }

/-- A send whose result is ignored, as the actor makes on its way out. -/
def sendLast (outbound : Outbound) (message : Text) : Option Outbound :=
  if outbound.attempt.isSome then none
  else
    match outbound.queue.trySend message with
    | .ok queue => some { outbound with queue, history := outbound.history ++ [.queued message] }
    | .error _ => some outbound

/-- The sender task takes the oldest message. -/
def receive (outbound : Outbound) : Option (Text × Outbound) :=
  outbound.queue.recv.map fun taken =>
    (taken.1,
      { outbound with queue := taken.2, history := outbound.history ++ [.received taken.1] })

end Outbound

/-- The steps of the actor and of the sender task on the queue. -/
inductive QueueAction
  | offer (chunk : Text)
  | retry
  | sendLast (message : Text)
  | receive
  deriving DecidableEq, Repr

/-- One step on the queue. -/
def Outbound.step (outbound : Outbound) : QueueAction → Option Outbound
  | .offer chunk => outbound.offer chunk
  | .retry => outbound.retry
  | .sendLast message => outbound.sendLast message
  | .receive => outbound.receive.map Prod.snd

/-! ## The order of events -/

/-- Where the queue stands: no drop is being handled, or a chunk was just dropped, or the sender
has made room since. -/
inductive DropPhase
  | idle
  | offered
  | relieved
  deriving DecidableEq, Repr

/-- How an event moves the phase on; other events cannot happen. -/
def DropPhase.step : DropPhase → QueueEvent → Option DropPhase
  | .idle, .queued _ => some .idle
  | .idle, .received _ => some .idle
  | .idle, .dropped _ => some .offered
  | .offered, .received _ => some .relieved
  | .offered, .gaveUp => some .idle
  | .relieved, .received _ => some .relieved
  | .relieved, .marked => some .idle
  | _, _ => none

/-- The state of the queue in a phase. -/
def Outbound.InPhase (outbound : Outbound) : DropPhase → Prop
  | .idle => outbound.attempt = none
  | .offered => outbound.attempt.isSome = true ∧ outbound.queue.Full
  | .relieved => outbound.attempt.isSome = true ∧ ¬ outbound.queue.Full

/-- The history of a queue with a live sender task is one the phases allow, and the queue accepted
what it says. -/
structure Outbound.Sound (outbound : Outbound) : Prop where
  alive : outbound.queue.receiving = true
  phased : ∃ phase, run DropPhase.step .idle outbound.history = some phase ∧
    outbound.InPhase phase
  fifo : outbound.queue.accepted = outbound.history.filterMap QueueEvent.sent

namespace Outbound

/-! ### What one operation does -/

theorem offer_cases {outbound next : Outbound} {chunk : Text}
    (stepped : outbound.offer chunk = some next) :
    outbound.attempt = none ∧
      ((∃ queue, outbound.queue.trySend chunk = .ok queue ∧
          next = { queue, attempt := none, history := outbound.history ++ [.queued chunk] }) ∨
        (outbound.queue.trySend chunk = .error .full ∧
          next = { queue := outbound.queue, attempt := some 1,
                   history := outbound.history ++ [.dropped chunk] }) ∨
        (outbound.queue.trySend chunk = .error .closed ∧ next = outbound)) := by
  obtain ⟨queue, attempt, history⟩ := outbound
  cases attempt with
  | some dropped => simp [offer] at stepped
  | none =>
      refine ⟨rfl, ?_⟩
      cases sent : queue.trySend chunk with
      | ok queue' =>
          left
          exact ⟨queue', rfl, by simpa [offer, sent, eq_comm] using stepped⟩
      | error refusal =>
          right
          cases refusal with
          | full => exact .inl ⟨rfl, by simpa [offer, sent, eq_comm] using stepped⟩
          | closed => exact .inr ⟨rfl, by simpa [offer, sent, eq_comm] using stepped⟩

theorem retry_cases {outbound next : Outbound} (stepped : outbound.retry = some next) :
    ∃ dropped, outbound.attempt = some dropped ∧
      ((∃ queue, outbound.queue.trySend backlogMarker = .ok queue ∧
          next = { queue, attempt := none, history := outbound.history ++ [.marked] }) ∨
        (∃ refusal, outbound.queue.trySend backlogMarker = .error refusal ∧
          ((4 < dropped ∧ next = { queue := outbound.queue, attempt := none,
                                   history := outbound.history ++ [.gaveUp] }) ∨
            (dropped ≤ 4 ∧ next = { outbound with attempt := some (dropped + 1) })))) := by
  obtain ⟨queue, attempt, history⟩ := outbound
  cases attempt with
  | none => simp [retry] at stepped
  | some dropped =>
      refine ⟨dropped, rfl, ?_⟩
      cases sent : queue.trySend backlogMarker with
      | ok queue' =>
          left
          exact ⟨queue', rfl, by simpa [retry, sent, eq_comm] using stepped⟩
      | error refusal =>
          right
          refine ⟨refusal, rfl, ?_⟩
          simp only [retry, sent] at stepped
          split at stepped
          · rename_i last
            exact .inl ⟨by omega, (Option.some.inj stepped).symm⟩
          · exact .inr ⟨by omega, (Option.some.inj stepped).symm⟩

theorem sendLast_cases {outbound next : Outbound} {message : Text}
    (stepped : outbound.sendLast message = some next) :
    outbound.attempt = none ∧
      ((∃ queue, outbound.queue.trySend message = .ok queue ∧
          next = { queue, attempt := none, history := outbound.history ++ [.queued message] }) ∨
        (∃ refusal, outbound.queue.trySend message = .error refusal ∧ next = outbound)) := by
  obtain ⟨queue, attempt, history⟩ := outbound
  cases attempt with
  | some dropped => simp [sendLast] at stepped
  | none =>
      refine ⟨rfl, ?_⟩
      cases sent : queue.trySend message with
      | ok queue' =>
          left
          exact ⟨queue', rfl, by simpa [sendLast, sent, eq_comm] using stepped⟩
      | error refusal =>
          right
          exact ⟨refusal, rfl, by simpa [sendLast, sent, eq_comm] using stepped⟩

theorem receive_cases {outbound next : Outbound} {message : Text}
    (stepped : outbound.receive = some (message, next)) :
    ∃ queue, outbound.queue.recv = some (message, queue) ∧
      next = { outbound with queue, history := outbound.history ++ [.received message] } := by
  obtain ⟨⟨taken, queue⟩, received, pair_eq⟩ := Option.map_eq_some_iff.mp stepped
  obtain ⟨rfl, rfl⟩ := Prod.mk.inj pair_eq
  exact ⟨queue, received, rfl⟩

/-- The actor's steps leave what was received alone. -/
structure Kept (outbound next : Outbound) : Prop where
  taken : next.queue.taken = outbound.queue.taken
  sending : next.queue.sending = outbound.queue.sending
  capacity : next.queue.capacity = outbound.queue.capacity

theorem Kept.refl (outbound : Outbound) : outbound.Kept outbound := ⟨rfl, rfl, rfl⟩

theorem kept_of_offer {outbound next : Outbound} {chunk : Text}
    (stepped : outbound.offer chunk = some next) : outbound.Kept next := by
  obtain ⟨-, ⟨queue, sent, rfl⟩ | ⟨-, rfl⟩ | ⟨-, rfl⟩⟩ := offer_cases stepped
  · obtain ⟨-, -, capacity, taken, -, -, sending, -⟩ := Channel.trySend_ok sent
    exact ⟨taken, sending, capacity⟩
  · exact ⟨rfl, rfl, rfl⟩
  · exact ⟨rfl, rfl, rfl⟩

theorem kept_of_retry {outbound next : Outbound} (stepped : outbound.retry = some next) :
    outbound.Kept next := by
  obtain ⟨dropped, -, ⟨queue, sent, rfl⟩ | ⟨refusal, -, ⟨-, rfl⟩ | ⟨-, rfl⟩⟩⟩ := retry_cases stepped
  · obtain ⟨-, -, capacity, taken, -, -, sending, -⟩ := Channel.trySend_ok sent
    exact ⟨taken, sending, capacity⟩
  · exact ⟨rfl, rfl, rfl⟩
  · exact ⟨rfl, rfl, rfl⟩

theorem kept_of_sendLast {outbound next : Outbound} {message : Text}
    (stepped : outbound.sendLast message = some next) : outbound.Kept next := by
  obtain ⟨-, ⟨queue, sent, rfl⟩ | ⟨refusal, -, rfl⟩⟩ := sendLast_cases stepped
  · obtain ⟨-, -, capacity, taken, -, -, sending, -⟩ := Channel.trySend_ok sent
    exact ⟨taken, sending, capacity⟩
  · exact ⟨rfl, rfl, rfl⟩

theorem attempt_of_sendLast {outbound next : Outbound} {message : Text}
    (stepped : outbound.sendLast message = some next) : next.attempt = none := by
  obtain ⟨resting, ⟨queue, -, rfl⟩ | ⟨refusal, -, rfl⟩⟩ := sendLast_cases stepped
  · rfl
  · exact resting

/-! ### Soundness of the history -/

theorem sound_new (capacity : Nat) : (new (Channel.empty capacity)).Sound where
  alive := rfl
  phased := ⟨.idle, rfl, rfl⟩
  fifo := rfl

/-- Append one event that the phase allows. -/
theorem Sound.extend {outbound next : Outbound} {phase : DropPhase} (sound : outbound.Sound)
    (event : QueueEvent) (after_event : DropPhase)
    (before : run DropPhase.step .idle outbound.history = some phase)
    (moved : phase.step event = some after_event) (history_eq : next.history = outbound.history ++ [event])
    (alive : next.queue.receiving = outbound.queue.receiving) (after : next.InPhase after_event)
    (accepted_eq : next.queue.accepted = outbound.queue.accepted ++ event.sent.toList) :
    next.Sound where
  alive := alive.trans sound.alive
  phased := ⟨after_event, by rw [history_eq]; exact run_concat_eq_some.mpr ⟨phase, before, moved⟩, after⟩
  fifo := by
    rw [accepted_eq, sound.fifo, history_eq, List.filterMap_append]
    cases event <;> rfl

theorem InPhase.idle_of_resting {outbound : Outbound} {phase : DropPhase}
    (here : outbound.InPhase phase) (resting : outbound.attempt = none) : phase = .idle := by
  cases phase with
  | idle => rfl
  | offered => simp [InPhase, resting] at here
  | relieved => simp [InPhase, resting] at here

theorem Sound.offer {outbound next : Outbound} {chunk : Text} (sound : outbound.Sound)
    (stepped : outbound.offer chunk = some next) : next.Sound := by
  obtain ⟨phase, before, here⟩ := sound.phased
  obtain ⟨resting, outcome⟩ := offer_cases stepped
  obtain rfl := InPhase.idle_of_resting here resting
  obtain sent | refused | refused := outcome
  · obtain ⟨queue, sent, rfl⟩ := sent
    obtain ⟨-, -, -, -, -, -, -, alive⟩ := Channel.trySend_ok sent
    exact sound.extend (.queued _) .idle before rfl rfl alive rfl (Channel.accepted_trySend sent)
  · obtain ⟨refused, rfl⟩ := refused
    have full := Channel.full_of_refused refused sound.alive
    exact sound.extend (.dropped chunk) .offered before rfl rfl rfl ⟨rfl, full⟩
      (List.append_nil _).symm
  · obtain ⟨-, rfl⟩ := refused
    exact sound

theorem Sound.retry {outbound next : Outbound} (sound : outbound.Sound)
    (stepped : outbound.retry = some next) : next.Sound := by
  obtain ⟨phase, before, here⟩ := sound.phased
  obtain ⟨dropped, trying, sent | refused⟩ := retry_cases stepped
  · obtain ⟨queue, sent, rfl⟩ := sent
    obtain ⟨receiving, room, -, -, -, -, -, alive⟩ := Channel.trySend_ok sent
    obtain rfl : phase = .relieved := by
      cases phase with
      | idle => simp [InPhase, trying] at here
      | offered => exact absurd here.2 ((Channel.trySend_isOk_iff _).mp ⟨queue, sent⟩).2
      | relieved => rfl
    exact sound.extend .marked .idle before rfl rfl alive rfl (Channel.accepted_trySend sent)
  · obtain ⟨refusal, refused, outcome⟩ := refused
    obtain ⟨rfl, full⟩ : phase = .offered ∧ outbound.queue.Full := by
      cases phase with
      | idle => simp [InPhase, trying] at here
      | offered => exact ⟨rfl, here.2⟩
      | relieved => exact (here.2 (Channel.full_of_refused refused sound.alive)).elim
    obtain ⟨-, rfl⟩ | ⟨-, rfl⟩ := outcome
    · exact sound.extend .gaveUp .idle before rfl rfl rfl rfl (List.append_nil _).symm
    · exact ⟨sound.alive, ⟨.offered, before, rfl, full⟩, sound.fifo⟩

theorem Sound.sendLast {outbound next : Outbound} {message : Text} (sound : outbound.Sound)
    (stepped : outbound.sendLast message = some next) : next.Sound := by
  obtain ⟨phase, before, here⟩ := sound.phased
  obtain ⟨resting, sent | refused⟩ := sendLast_cases stepped
  · obtain rfl := InPhase.idle_of_resting here resting
    obtain ⟨queue, sent, rfl⟩ := sent
    obtain ⟨-, -, -, -, -, -, -, alive⟩ := Channel.trySend_ok sent
    exact sound.extend (.queued _) .idle before rfl rfl alive rfl (Channel.accepted_trySend sent)
  · obtain ⟨-, -, rfl⟩ := refused
    exact sound

theorem Sound.receive {outbound next : Outbound} {message : Text} (sound : outbound.Sound)
    (stepped : outbound.receive = some (message, next)) : next.Sound := by
  obtain ⟨phase, before, here⟩ := sound.phased
  obtain ⟨queue, received, rfl⟩ := receive_cases stepped
  obtain ⟨-, -, -, -, -, alive⟩ := Channel.recv_eq_some received
  have room := Channel.not_full_of_recv received
  have accepted_eq : queue.accepted = outbound.queue.accepted ++ [] := by
    rw [Channel.accepted_recv received, List.append_nil]
  cases phase with
  | idle => exact sound.extend (.received message) .idle before rfl rfl alive here accepted_eq
  | offered =>
      exact sound.extend (.received message) .relieved before rfl rfl alive ⟨here.1, room⟩ accepted_eq
  | relieved =>
      exact sound.extend (.received message) .relieved before rfl rfl alive ⟨here.1, room⟩ accepted_eq

theorem Sound.dropSender {outbound : Outbound} (sound : outbound.Sound) :
    Sound { outbound with queue := outbound.queue.dropSender } :=
  ⟨sound.alive, sound.phased, sound.fifo⟩

theorem Sound.step {outbound next : Outbound} {action : QueueAction} (sound : outbound.Sound)
    (stepped : outbound.step action = some next) : next.Sound := by
  cases action with
  | offer chunk => exact sound.offer stepped
  | retry => exact sound.retry stepped
  | sendLast message => exact sound.sendLast stepped
  | receive =>
      obtain ⟨⟨message, next⟩, received, rfl⟩ := Option.map_eq_some_iff.mp stepped
      exact sound.receive received

/-- Every schedule of the actor and the sender task keeps the history sound. -/
theorem sound_of_run {capacity : Nat} {schedule : List QueueAction} {outbound : Outbound}
    (ran : run Outbound.step (new (Channel.empty capacity)) schedule = some outbound) :
    outbound.Sound :=
  invariant_of_run (fun _ _ _ sound stepped => Sound.step sound stepped) ran (sound_new capacity)

end Outbound

end Loraterm
