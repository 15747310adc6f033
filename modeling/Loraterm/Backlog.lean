import Loraterm.Outbound

/-!
# Visible drops

A chunk the full queue refuses should leave a marker between what was sent before and after it.
The marker goes through the same queue without waiting, so it arrives exactly when the sender
takes a message between some drop of the gap and the last of its five marker attempts.
-/

namespace Loraterm

open Utf8Text Mpsc Execution

/-- No ordinary chunk is queued by any of the events. -/
def Unqueued (events : List QueueEvent) : Prop := ∀ event ∈ events, event.isQueued = false

/-- After every drop the marker is queued before any further ordinary chunk. -/
def DropsVisible (history : List QueueEvent) : Prop :=
  ∀ earlier chunk later, history = earlier ++ .dropped chunk :: later →
    ∃ between rest, later = between ++ .marked :: rest ∧ Unqueued between

/-- From every drop on, and before any further ordinary chunk is queued, there is a drop after
which the sender takes a message before the marker attempts are over. -/
def DropsRelieved (history : List QueueEvent) : Prop :=
  ∀ earlier chunk later, history = earlier ++ .dropped chunk :: later →
    ∃ between last message rest,
      .dropped chunk :: later = between ++ .dropped last :: .received message :: rest ∧
        Unqueued between

/-! ## Phases of a history -/

theorem dropped_of_offered {events : List QueueEvent}
    (ran : run DropPhase.step .idle events = some .offered) :
    ∃ before chunk, events = before ++ [.dropped chunk] := by
  obtain rfl | ⟨before, event, rfl⟩ := events.eq_nil_or_concat
  · cases ran
  · rw [List.concat_eq_append] at ran
    obtain ⟨phase, -, moved⟩ := run_concat_eq_some.mp ran
    cases phase <;> cases event <;> cases moved
    exact ⟨before, _, List.concat_eq_append⟩

/-- Room after a drop was made by a message taken right after some drop. -/
theorem relief_of_relieved {events : List QueueEvent}
    (ran : run DropPhase.step .idle events = some .relieved) :
    ∃ before chunk message rest,
      events = before ++ .dropped chunk :: .received message :: rest := by
  induction events using List.reverseRecOn with
  | nil => cases ran
  | append_singleton events event ih =>
      obtain ⟨phase, ran_before, moved⟩ := run_concat_eq_some.mp ran
      cases phase with
      | idle => cases event <;> cases moved
      | offered =>
          obtain ⟨before, chunk, rfl⟩ := dropped_of_offered ran_before
          cases event <;> cases moved
          rename_i message
          exact ⟨before, chunk, message, [], by simp⟩
      | relieved =>
          obtain ⟨before, chunk, message, rest, rfl⟩ := ih ran_before
          exact ⟨before, chunk, message, rest ++ [event], by simp⟩

/-- Once there is room, the marker comes next. -/
theorem marked_of_relieved {events : List QueueEvent}
    (ran : run DropPhase.step .relieved events = some .idle) :
    ∃ between rest, events = between ++ .marked :: rest ∧ Unqueued between := by
  induction events with
  | nil => cases ran
  | cons event events ih =>
      obtain ⟨phase, moved, ran_rest⟩ := run_cons_eq_some.mp ran
      cases event with
      | queued chunk => cases moved
      | dropped chunk => cases moved
      | gaveUp => cases moved
      | marked => exact ⟨[], events, rfl, by simp [Unqueued]⟩
      | received message =>
          obtain rfl := Option.some.inj moved
          obtain ⟨between, rest, rfl, unqueued⟩ := ih ran_rest
          exact ⟨.received message :: between, rest, rfl,
            List.forall_mem_cons.mpr ⟨rfl, unqueued⟩⟩

theorem idle_of_step_dropped {phase next : DropPhase} {chunk : Text}
    (moved : phase.step (.dropped chunk) = some next) : phase = .idle := by
  cases phase <;> cases moved
  rfl

theorem relieved_of_step_marked {phase next : DropPhase}
    (moved : phase.step .marked = some next) : phase = .relieved := by
  cases phase <;> cases moved
  rfl

/-- Every drop runs from the idle phase on. -/
theorem run_from_drop {earlier later : List QueueEvent} {chunk : Text} {final : DropPhase}
    (ran : run DropPhase.step .idle (earlier ++ .dropped chunk :: later) = some final) :
    run DropPhase.step .idle (.dropped chunk :: later) = some final := by
  obtain ⟨phase, -, ran_later⟩ := run_append_eq_some.mp ran
  obtain ⟨next, moved, -⟩ := run_cons_eq_some.mp ran_later
  obtain rfl := idle_of_step_dropped moved
  exact ran_later

theorem relieved_of_visible {history : List QueueEvent} {final : DropPhase}
    (ran : run DropPhase.step .idle history = some final) (visible : DropsVisible history) :
    DropsRelieved history := by
  intro earlier chunk later history_eq
  obtain ⟨between, rest, rfl, unqueued⟩ := visible earlier chunk later history_eq
  rw [history_eq] at ran
  have from_drop := run_from_drop ran
  rw [← List.cons_append] at from_drop
  obtain ⟨phase, ran_between, ran_marked⟩ := run_append_eq_some.mp from_drop
  obtain ⟨next, moved, -⟩ := run_cons_eq_some.mp ran_marked
  obtain rfl := relieved_of_step_marked moved
  obtain ⟨before, last, message, others, events_eq⟩ := relief_of_relieved ran_between
  refine ⟨before, last, message, others ++ .marked :: rest, ?_, ?_⟩
  · rw [← List.cons_append, events_eq]
    simp
  · intro event member
    have inside : event ∈ QueueEvent.dropped chunk :: between := by
      rw [events_eq]
      exact List.mem_append_left _ member
    obtain rfl | inside := List.mem_cons.mp inside
    · rfl
    · exact unqueued event inside

theorem visible_of_relieved {history : List QueueEvent}
    (ran : run DropPhase.step .idle history = some .idle) (relieved : DropsRelieved history) :
    DropsVisible history := by
  intro earlier chunk later history_eq
  obtain ⟨before, last, message, rest, events_eq, unqueued⟩ :=
    relieved earlier chunk later history_eq
  rw [history_eq] at ran
  have from_drop := run_from_drop ran
  rw [events_eq] at from_drop
  have from_last := run_from_drop from_drop
  have from_relief : run DropPhase.step .relieved rest = some .idle := from_last
  obtain ⟨between, others, rfl, unqueued_between⟩ := marked_of_relieved from_relief
  cases before with
  | nil =>
      obtain ⟨rfl, rfl⟩ : chunk = last ∧ later = .received message :: (between ++ .marked :: others) :=
        by simpa using events_eq
      exact ⟨.received message :: between, others, rfl,
        List.forall_mem_cons.mpr ⟨rfl, unqueued_between⟩⟩
  | cons first before =>
      obtain ⟨rfl, rfl⟩ : .dropped chunk = first ∧
          later = before ++ .dropped last :: .received message :: (between ++ .marked :: others) := by
        simpa using events_eq
      refine ⟨before ++ .dropped last :: .received message :: between, others, by simp, ?_⟩
      intro event member
      obtain member | member := List.mem_append.mp member
      · exact unqueued event (List.mem_cons_of_mem _ member)
      · obtain rfl | member := List.mem_cons.mp member
        · rfl
        · obtain rfl | member := List.mem_cons.mp member
          · rfl
          · exact unqueued_between event member

/-- In every run of the actor and the sender task, seen between two calls of `enqueue_chunk`, the
queue accepted the ordinary chunks and markers in the order of the history, and all drops are
visible in it exactly when each gap was relieved in time. -/
theorem backlog_drops_visible_iff {capacity : Nat} {queue : Channel Text}
    {schedule : List QueueAction} {outbound : Outbound}
    (created : Channel.new capacity = some queue)
    (ran : run Outbound.step (Outbound.new queue) schedule = some outbound)
    (returned : outbound.attempt = none) :
    outbound.queue.taken ++ outbound.queue.items =
        outbound.history.filterMap QueueEvent.sent ∧
      (DropsVisible outbound.history ↔ DropsRelieved outbound.history) := by
  obtain ⟨-, rfl⟩ := Channel.new_eq_some created
  have sound := Outbound.sound_of_run ran
  obtain ⟨phase, phased, here⟩ := sound.phased
  obtain rfl := Outbound.InPhase.idle_of_resting here returned
  refine ⟨?_, relieved_of_visible phased, visible_of_relieved phased⟩
  have accepted := sound.fifo
  rw [Channel.accepted, outbound.queue.kept sound.alive, List.append_nil] at accepted
  exact accepted

/-- With one slot: a chunk is dropped, and the sender takes the waiting one before the next marker
attempt. -/
theorem backlog_drop_relieved :
    DropsVisible [.queued ['a'], .dropped ['b'], .received ['a'], .marked] ↔
      DropsRelieved [.queued ['a'], .dropped ['b'], .received ['a'], .marked] := by
  have settled := @backlog_drops_visible_iff 1 _ [.offer ['a'], .offer ['b'], .receive, .retry] _
    rfl rfl rfl
  exact settled.2

/-- With one slot, a chunk dropped while the sender is busy leaves no marker. -/
theorem backlog_drop_can_be_silent :
    ¬ ∀ capacity queue schedule (outbound : Outbound), 0 < capacity →
      Channel.new capacity = some queue →
      run Outbound.step (Outbound.new queue) schedule = some outbound →
      outbound.attempt = none → DropsVisible outbound.history := by
  intro visible
  have shown := visible 1 _
    [.offer ['a'], .offer ['b'], .retry, .retry, .retry, .retry, .retry, .receive, .offer ['c']]
    _ (by decide) rfl rfl rfl
  obtain ⟨between, rest, later_eq, -⟩ := shown [.queued ['a']] ['b']
    [.gaveUp, .received ['a'], .queued ['c']] rfl
  have marked : QueueEvent.marked ∈ [.gaveUp, .received ['a'], .queued ['c']] := by
    rw [later_eq]
    exact List.mem_append_right _ List.mem_cons_self
  simp at marked

end Loraterm
