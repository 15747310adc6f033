import Mathlib

/-!
# Bounded FIFO channels

A channel with a fixed number of slots, one receiving end and any number of senders.  It keeps
what was received and what was discarded with the receiving end, so that the messages it ever
accepted can be read off the state.
-/

namespace Mpsc

/-- Why a non-blocking send was refused. -/
inductive TrySendError
  | full
  | closed
  deriving DecidableEq, Repr

/-- A bounded channel. -/
structure Channel (α : Type*) where
  /-- Number of slots. -/
  capacity : Nat
  /-- Messages received so far, oldest first. -/
  taken : List α
  /-- Messages waiting, oldest first. -/
  items : List α
  /-- Messages that were waiting when the receiving end was dropped. -/
  discarded : List α
  /-- Whether some sender is alive. -/
  sending : Bool
  /-- Whether the receiving end is alive. -/
  receiving : Bool
  bounded : items.length ≤ capacity
  kept : receiving = true → discarded = []
  emptied : receiving = false → items = []
  deriving DecidableEq

namespace Channel

variable {α : Type*}

/-- A channel nothing was sent on yet. -/
def empty (capacity : Nat) : Channel α where
  capacity := capacity
  taken := []
  items := []
  discarded := []
  sending := true
  receiving := true
  bounded := Nat.zero_le _
  kept := fun _ => rfl
  emptied := fun _ => rfl

/-- A new channel; there is none without slots. -/
def new (capacity : Nat) : Option (Channel α) :=
  if capacity = 0 then none else some (empty capacity)

/-- Every message the channel ever accepted, oldest first. -/
def accepted (channel : Channel α) : List α := channel.taken ++ channel.items ++ channel.discarded

/-- Whether the receiving end is gone. -/
def isClosed (channel : Channel α) : Bool := !channel.receiving

/-- Whether no slot is free. -/
def Full (channel : Channel α) : Prop := channel.items.length = channel.capacity

instance (channel : Channel α) : Decidable channel.Full := inferInstanceAs (Decidable (_ = _))

/-- Whether the receiving end learns that no further message will come. -/
def finished (channel : Channel α) : Bool := channel.items.isEmpty && !channel.sending

/-- Put a message into a free slot, without waiting. -/
def trySend (channel : Channel α) (message : α) : Except TrySendError (Channel α) :=
  if receiving : channel.receiving = true then
    if room : channel.items.length < channel.capacity then
      .ok
        { channel with
          items := channel.items ++ [message]
          bounded := by rw [List.length_append]; exact room
          emptied := by simp [receiving] }
    else .error .full
  else .error .closed

/-- Receive the oldest waiting message. -/
def recv (channel : Channel α) : Option (α × Channel α) :=
  match items_eq : channel.items with
  | [] => none
  | message :: rest =>
      some (message,
        { channel with
          taken := channel.taken ++ [message]
          items := rest
          bounded := by
            have bound := channel.bounded
            rw [items_eq] at bound
            exact Nat.le_of_succ_le bound
          emptied := by
            intro gone
            rw [channel.emptied gone] at items_eq
            cases items_eq })

/-- Drop the last sender. -/
def dropSender (channel : Channel α) : Channel α := { channel with sending := false }

/-- Drop the receiving end, and with it every waiting message. -/
def dropReceiver (channel : Channel α) : Channel α :=
  { channel with
    items := []
    discarded := channel.discarded ++ channel.items
    receiving := false
    bounded := Nat.zero_le _
    kept := by simp
    emptied := fun _ => rfl }

/-! ## What one operation does -/

theorem new_eq_some {capacity : Nat} {channel : Channel α}
    (created : new capacity = some channel) : 0 < capacity ∧ channel = empty capacity := by
  simp only [new] at created
  split at created
  · cases created
  · rename_i positive
    exact ⟨Nat.pos_of_ne_zero positive, (Option.some.inj created).symm⟩

@[simp] theorem accepted_empty (capacity : Nat) : (empty capacity : Channel α).accepted = [] := rfl

/-- A send that succeeds appends one message and changes nothing else. -/
theorem trySend_ok {channel next : Channel α} {message : α}
    (sent : channel.trySend message = .ok next) :
    channel.receiving = true ∧ channel.items.length < channel.capacity ∧
      next.capacity = channel.capacity ∧ next.taken = channel.taken ∧
      next.items = channel.items ++ [message] ∧ next.discarded = channel.discarded ∧
      next.sending = channel.sending ∧ next.receiving = channel.receiving := by
  simp only [trySend] at sent
  split at sent
  · split at sent
    · rename_i receiving room
      obtain rfl := Except.ok.inj sent
      exact ⟨receiving, room, rfl, rfl, rfl, rfl, rfl, rfl⟩
    · cases sent
  · cases sent

theorem accepted_trySend {channel next : Channel α} {message : α}
    (sent : channel.trySend message = .ok next) : next.accepted = channel.accepted ++ [message] := by
  obtain ⟨receiving, -, -, taken_eq, items_eq, discarded_eq, -⟩ := trySend_ok sent
  simp [accepted, taken_eq, items_eq, discarded_eq, channel.kept receiving]

/-- A send succeeds exactly when the receiving end is alive and a slot is free. -/
theorem trySend_isOk_iff {channel : Channel α} (message : α) :
    (∃ next, channel.trySend message = .ok next) ↔
      channel.receiving = true ∧ ¬ channel.Full := by
  have bound := channel.bounded
  constructor
  · rintro ⟨next, sent⟩
    obtain ⟨receiving, room, -⟩ := trySend_ok sent
    exact ⟨receiving, by rw [Full]; omega⟩
  · rintro ⟨receiving, not_full⟩
    have room : channel.items.length < channel.capacity := by
      rw [Full] at not_full
      omega
    exact ⟨_, by rw [trySend, dif_pos receiving, dif_pos room]⟩

/-- Only a full channel refuses while the receiving end is alive. -/
theorem full_of_refused {channel : Channel α} {message : α} {refusal : TrySendError}
    (refused : channel.trySend message = .error refusal) (receiving : channel.receiving = true) :
    channel.Full := by
  by_contra not_full
  obtain ⟨next, sent⟩ := (trySend_isOk_iff message).mpr ⟨receiving, not_full⟩
  rw [sent] at refused
  cases refused

theorem trySend_of_full {channel : Channel α} (message : α) (receiving : channel.receiving = true)
    (full : channel.Full) : channel.trySend message = .error .full := by
  have no_room : ¬ channel.items.length < channel.capacity := by
    rw [Full] at full
    omega
  rw [trySend, dif_pos receiving, dif_neg no_room]

theorem trySend_closed {channel : Channel α} {message : α}
    (refused : channel.trySend message = .error .closed) : channel.receiving = false := by
  simp only [trySend] at refused
  split at refused
  · split at refused <;> cases refused
  · rename_i gone
    simpa using gone

theorem trySend_of_closed {channel : Channel α} (message : α)
    (gone : channel.receiving = false) : channel.trySend message = .error .closed := by
  rw [trySend, dif_neg (by simp [gone])]

/-- A receive moves the oldest waiting message to the received ones. -/
theorem recv_eq_some {channel next : Channel α} {message : α}
    (received : channel.recv = some (message, next)) :
    channel.items = message :: next.items ∧ next.capacity = channel.capacity ∧
      next.taken = channel.taken ++ [message] ∧ next.discarded = channel.discarded ∧
      next.sending = channel.sending ∧ next.receiving = channel.receiving := by
  simp only [recv] at received
  split at received
  · cases received
  · rename_i items_eq
    obtain ⟨rfl, rfl⟩ := Prod.mk.inj (Option.some.inj received)
    exact ⟨items_eq, rfl, rfl, rfl, rfl, rfl⟩

theorem recv_eq_none_iff {channel : Channel α} : channel.recv = none ↔ channel.items = [] := by
  simp only [recv]
  split <;> simp_all

theorem exists_recv {channel : Channel α} (waiting : channel.items ≠ []) :
    ∃ message next, channel.recv = some (message, next) := by
  cases received : channel.recv with
  | none => exact (waiting (recv_eq_none_iff.mp received)).elim
  | some pair => exact ⟨pair.1, pair.2, rfl⟩

/-- What is received is the first message that waits. -/
theorem exists_recv_of_items {channel : Channel α} {message : α} {rest : List α}
    (items_eq : channel.items = message :: rest) :
    ∃ next, channel.recv = some (message, next) ∧ next.items = rest := by
  obtain ⟨first, next, received⟩ := exists_recv (items_eq ▸ List.cons_ne_nil message rest)
  obtain ⟨received_eq, -⟩ := recv_eq_some received
  obtain ⟨rfl, rest_eq⟩ := List.cons.inj (items_eq.symm.trans received_eq)
  exact ⟨next, received, rest_eq.symm⟩

theorem accepted_recv {channel next : Channel α} {message : α}
    (received : channel.recv = some (message, next)) : next.accepted = channel.accepted := by
  obtain ⟨items_eq, -, taken_eq, discarded_eq, -⟩ := recv_eq_some received
  simp [accepted, taken_eq, items_eq, discarded_eq]

theorem not_full_of_recv {channel next : Channel α} {message : α}
    (received : channel.recv = some (message, next)) : ¬ next.Full := by
  obtain ⟨items_eq, capacity_eq, -⟩ := recv_eq_some received
  have bound := channel.bounded
  rw [items_eq, List.length_cons] at bound
  rw [Full, capacity_eq]
  omega

@[simp] theorem accepted_dropSender (channel : Channel α) :
    channel.dropSender.accepted = channel.accepted := rfl

@[simp] theorem accepted_dropReceiver (channel : Channel α) :
    channel.dropReceiver.accepted = channel.accepted := by
  cases receiving : channel.receiving with
  | true => simp [accepted, dropReceiver, channel.kept receiving]
  | false => simp [accepted, dropReceiver, channel.emptied receiving]

@[simp] theorem items_dropReceiver (channel : Channel α) : channel.dropReceiver.items = [] := rfl

end Channel

/-- The state of a one-shot channel as its receiver sees it. -/
inductive Oneshot (α : Type*)
  | waiting
  | sent (message : α)
  | dropped
  deriving DecidableEq, Repr

end Mpsc
