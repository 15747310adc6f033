import Mathlib.Tactic.TypeStar

/-!
# Watch channels

A channel that holds one value and tells its receiver that a new one was sent.  Values that the
receiver did not look at in time are overwritten.
-/

namespace WatchChannel

/-- A watch channel with one receiver. -/
structure Watch (α : Type*) where
  /-- The value sent last. -/
  value : α
  /-- The receiver was not yet told of it. -/
  unseen : Bool
  /-- Whether the sender is alive. -/
  sending : Bool
  deriving DecidableEq, Repr

namespace Watch

variable {α : Type*} {watch next : Watch α}

/-- A channel with its first value, which the receiver knows. -/
def new (value : α) : Watch α := { value, unseen := false, sending := true }

/-- Send a value. -/
def send (watch : Watch α) (value : α) : Watch α := { watch with value, unseen := true }

/-- Wait for a change: the receiver is told of a value it has not seen, or that the sender is gone;
else it goes on waiting. -/
def changed (watch : Watch α) : Option (Watch α) :=
  if watch.unseen then some { watch with unseen := false }
  else if watch.sending then none
  else some watch

theorem value_of_changed (told : watch.changed = some next) : next.value = watch.value := by
  simp only [changed] at told
  split at told
  · obtain rfl := Option.some.inj told
    rfl
  · split at told
    · cases told
    · obtain rfl := Option.some.inj told
      rfl

/-- While the sender is alive, the receiver is told of what it has not seen, once. -/
theorem unseen_of_changed (alive : watch.sending = true) (told : watch.changed = some next) :
    watch.unseen = true ∧ next = { watch with unseen := false } := by
  simp only [changed] at told
  split at told
  · rename_i unseen
    exact ⟨unseen, (Option.some.inj told).symm⟩
  · cases told

theorem changed_of_unseen (unseen : watch.unseen = true) :
    watch.changed = some { watch with unseen := false } := by
  rw [changed, if_pos unseen]

theorem seen_of_changed_eq_none (waits : watch.changed = none) :
    watch.unseen = false ∧ watch.sending = true := by
  simp only [changed] at waits
  split at waits
  · cases waits
  · rename_i seen
    split at waits
    · exact ⟨by simpa using seen, by assumption⟩
    · cases waits

end Watch

end WatchChannel
