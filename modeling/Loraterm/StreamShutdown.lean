import Loraterm.Library.Execution
import Loraterm.SseStream

/-!
# Stopping the stream task

Once the stream task is told to stop it takes at most three more steps: it sends no further request
and reads at most one frame, the one of a poll under way.  Only a response that is outstanding and a
full event channel can hold it up.
-/

namespace Loraterm

open Execution Mpsc WatchChannel

/-- Steps the task takes until it has ended, once it is told to stop. -/
def StreamPhase.remaining : StreamPhase → Nat
  | .top => 1
  | .connecting => 3
  | .selecting _ => 1
  | .listening _ => 3
  | .handing .. => 2
  | .sleeping _ => 2
  | .returned => 0
  | .panicked => 0

/-- Frames the task reads until it has ended, once it is told to stop. -/
def StreamPhase.toRead : StreamPhase → Nat
  | .listening _ => 1
  | _ => 0

theorem StreamPhase.remaining_le (phase : StreamPhase) : phase.remaining ≤ 3 := by
  cases phase <;> simp [remaining]

theorem StreamPhase.toRead_le (phase : StreamPhase) : phase.toRead ≤ 1 := by
  cases phase <;> simp [toRead]

namespace SseStream

/-- The order to stop waits to be seen until the task ends. -/
structure Informed (stream : SseStream) : Prop where
  sending : stream.shutdown.sending = true
  untold : stream.shutdown.value = false → stream.shutdown.unseen = false
  told : stream.shutdown.value = true → stream.phase.isOver = false → stream.shutdown.unseen = true

variable {reader : JsonReader} {stream next : SseStream} {action : StreamAction}

theorem Informed.value_of_changed {shutdown : Watch Bool} (informed : stream.Informed)
    (changed : stream.shutdown.changed = some shutdown) :
    shutdown.value = true ∧ shutdown.sending = true := by
  obtain ⟨unseen, rfl⟩ := Watch.unseen_of_changed informed.sending changed
  refine ⟨?_, informed.sending⟩
  cases value : stream.shutdown.value with
  | true => rfl
  | false =>
      rw [informed.untold value] at unseen
      cases unseen

/-- A task that ends at a change was told to. -/
theorem Informed.finish {shutdown : Watch Bool} (informed : stream.Informed)
    (changed : stream.shutdown.changed = some shutdown) :
    Informed ({ stream with shutdown }.finish .returned) := by
  obtain ⟨value, sending⟩ := informed.value_of_changed changed
  refine ⟨sending, fun untold => ?_, fun _ still => by cases still⟩
  have impossible : true = false := value.symm.trans untold
  cases impossible

/-- Steps that leave the watch channel alone leave the task informed. -/
theorem Informed.keep (informed : stream.Informed) (same : next.shutdown = stream.shutdown)
    (alive : next.phase.isOver = false → stream.phase.isOver = false) : next.Informed where
  sending := by rw [same, informed.sending]
  untold := by
    rw [same]
    exact informed.untold
  told := by
    rw [same]
    exact fun told still => informed.told told (alive still)

theorem Informed.step (informed : stream.Informed)
    (stepped : StreamStep reader stream action next) : next.Informed := by
  have alive {phase : StreamPhase} (here : stream.phase = phase) (alive : phase.isOver = false) :
      stream.phase.isOver = false := by
    rw [here, alive]
  cases stepped with
  | left at_top told => exact informed.keep rfl fun still => by cases still
  | requested at_top untold => exact informed.keep rfl fun _ => alive at_top rfl
  | granted connecting => exact informed.keep rfl fun _ => alive connecting rfl
  | refused connecting => exact informed.keep rfl fun _ => alive connecting rfl
  | undisturbed selecting waits => exact informed.keep rfl fun _ => alive selecting rfl
  | stopped selecting changed told => exact informed.finish changed
  | disturbed selecting changed untold =>
      rw [(informed.value_of_changed changed).1] at untold
      cases untold
  | accepted listening =>
      rw [accept]
      split
      · exact informed.keep rfl fun still => by cases still
      · exact informed.keep rfl fun _ => alive listening rfl
  | dropped listening => exact informed.keep rfl fun _ => alive listening rfl
  | silent listening => exact informed.keep rfl fun _ => alive listening rfl
  | handed handing sent => exact informed.keep rfl fun _ => alive handing rfl
  | ignored handing closed => exact informed.keep rfl fun _ => alive handing rfl
  | disconnected handing closed => exact informed.keep rfl fun still => by cases still
  | woken sleeping past => exact informed.keep rfl fun _ => alive sleeping rfl
  | roused sleeping changed untold =>
      rw [(informed.value_of_changed changed).1] at untold
      cases untold
  | noticed sleeping changed told => exact informed.finish changed
  | waited duration => exact informed.keep rfl id
  | received taken => exact informed.keep rfl id
  | asked => exact ⟨informed.sending, fun untold => (by cases untold), fun _ _ => rfl⟩

theorem informed_of_run {logged : Bool} {schedule : List StreamAction}
    (ran : run (SseStream.step reader) (new logged) schedule = some stream) : stream.Informed :=
  invariant_of_run
    (fun _ _ _ informed stepped => Informed.step informed (streamStep_of_step stepped)) ran
    ⟨rfl, fun _ => rfl, fun told => by cases told⟩

/-! ## After the order -/

/-- What a step does once the task is told to stop. -/
structure Winds (stream : SseStream) (action : StreamAction) (next : SseStream) : Prop where
  told : next.shutdown.value = true
  attempts : next.attempts.length = stream.attempts.length
  rank : next.phase.remaining + (if action.own then 1 else 0) ≤ stream.phase.remaining
  frames : next.frames.length + next.phase.toRead ≤ stream.frames.length + stream.phase.toRead

theorem winds_of_step (informed : stream.Informed) (told : stream.shutdown.value = true)
    (stepped : StreamStep reader stream action next) : Winds stream action next := by
  have unread {phase : StreamPhase} (here : stream.phase = phase) (own : action.own = true)
      (fewer : next.phase.remaining + 1 ≤ phase.remaining) (last : next.phase.toRead = 0)
      (still_told : next.shutdown.value = true)
      (attempts : next.attempts.length = stream.attempts.length)
      (frames : next.frames = stream.frames) : Winds stream action next := by
    refine ⟨still_told, attempts, ?_, ?_⟩
    · rw [here, if_pos own]
      exact fewer
    · rw [frames, last]
      omega
  cases stepped with
  | left at_top _ => exact unread at_top rfl (Nat.le_refl 1) rfl told rfl rfl
  | requested at_top untold =>
      rw [told] at untold
      cases untold
  | granted connecting =>
      exact unread connecting rfl (Nat.le_succ 2) rfl told (List.length_modify _ _ _) rfl
  | refused connecting => exact unread connecting rfl (Nat.le_refl 3) rfl told rfl rfl
  | undisturbed selecting waits =>
      have unseen := informed.told told (by rw [selecting]; rfl)
      rw [(Watch.seen_of_changed_eq_none waits).1] at unseen
      cases unseen
  | stopped selecting changed value =>
      exact unread selecting rfl (Nat.le_refl 1) rfl value rfl rfl
  | disturbed selecting changed untold =>
      rw [(informed.value_of_changed changed).1] at untold
      cases untold
  | accepted listening =>
      rw [accept]
      split
      · refine ⟨told, rfl, ?_, ?_⟩
        · rw [listening]
          exact Nat.le_add_left 1 2
        · rw [listening]
          exact (List.length_append ..).le
      · refine ⟨told, rfl, ?_, ?_⟩
        · rw [listening]
          exact Nat.le_refl 3
        · rw [listening]
          exact (List.length_append ..).le
  | dropped listening => exact unread listening rfl (Nat.le_refl 3) rfl told rfl rfl
  | silent listening => exact unread listening rfl (Nat.le_succ 2) rfl told rfl rfl
  | handed handing sent => exact unread handing rfl (Nat.le_refl 2) rfl told rfl rfl
  | ignored handing closed => exact unread handing rfl (Nat.le_refl 2) rfl told rfl rfl
  | disconnected handing closed => exact unread handing rfl (Nat.le_succ 1) rfl told rfl rfl
  | woken sleeping past => exact unread sleeping rfl (Nat.le_refl 2) rfl told rfl rfl
  | roused sleeping changed untold =>
      rw [(informed.value_of_changed changed).1] at untold
      cases untold
  | noticed sleeping changed value =>
      exact unread sleeping rfl (Nat.le_succ 1) rfl value rfl rfl
  | waited duration => exact ⟨told, rfl, Nat.le_refl _, Nat.le_refl _⟩
  | received taken => exact ⟨told, rfl, Nat.le_refl _, Nat.le_refl _⟩
  | asked => exact ⟨rfl, rfl, Nat.le_refl _, Nat.le_refl _⟩

/-- A task that was told can go on unless a response is outstanding or the event channel is full. -/
theorem own_step_of_told (informed : stream.Informed) (told : stream.shutdown.value = true)
    (alive : stream.phase.isOver = false) :
    stream.phase = .connecting ∨
      (∃ event comment, stream.phase = .handing event comment ∧
        stream.events.trySend event = .error .full) ∨
        ∃ action, action.own = true ∧ (stream.step reader action).isSome = true := by
  have changed := Watch.changed_of_unseen (informed.told told alive)
  cases phase_eq : stream.phase with
  | top => exact .inr (.inr ⟨.check, rfl, by simp [step, phase_eq]⟩)
  | connecting => exact .inl rfl
  | selecting since => exact .inr (.inr ⟨.pollShutdown, rfl, by simp [step, phase_eq]⟩)
  | listening since => exact .inr (.inr ⟨.pollEvents .pending 0, rfl, by simp [step, phase_eq]⟩)
  | handing event comment =>
      right
      cases sent : stream.events.trySend event with
      | ok events => exact .inr ⟨.hand, rfl, by simp [step, phase_eq, hand, sent]⟩
      | error refusal =>
          cases refusal with
          | full => exact .inl ⟨event, comment, rfl, sent⟩
          | closed =>
              refine .inr ⟨.hand, rfl, ?_⟩
              simp only [step, phase_eq, hand, sent]
              split <;> rfl
  | sleeping deadline =>
      exact .inr (.inr ⟨.notice, rfl, by simp [step, phase_eq, notice, changed]⟩)
  | returned =>
      rw [phase_eq] at alive
      cases alive
  | panicked =>
      rw [phase_eq] at alive
      cases alive

/-- In every run, from the state in which the task is told to stop it takes at most three steps of
its own, sends no request and reads at most one frame; and unless it has ended, it can take a step,
except while a response is outstanding or the event channel is full. -/
theorem stops_promptly {logged : Bool} {schedule rest : List StreamAction} {final : SseStream}
    (ran : run (SseStream.step reader) (new logged) schedule = some stream)
    (told : stream.shutdown.value = true)
    (ran_on : run (SseStream.step reader) stream rest = some final) :
    rest.countP StreamAction.own ≤ 3 ∧ final.attempts.length = stream.attempts.length ∧
      final.frames.length ≤ stream.frames.length + 1 ∧
        (final.phase.isOver = true ∨ final.phase = .connecting ∨
          (∃ event comment, final.phase = .handing event comment ∧
            final.events.trySend event = .error .full) ∨
            ∃ action, action.own = true ∧ (final.step reader action).isSome = true) := by
  let Wound (state : SseStream) : Prop :=
    state.Informed ∧ state.shutdown.value = true ∧
      state.attempts.length = stream.attempts.length ∧
        state.frames.length + state.phase.toRead ≤ stream.frames.length + stream.phase.toRead
  have preserved : ∀ state action next, Wound state → state.step reader action = some next →
      Wound next := by
    rintro state action next ⟨informed, told, attempts, frames⟩ stepped
    have step := streamStep_of_step stepped
    have winds := winds_of_step informed told step
    exact ⟨informed.step step, winds.told, winds.attempts.trans attempts, winds.frames.trans frames⟩
  have initially : Wound stream := ⟨informed_of_run ran, told, rfl, Nat.le_refl _⟩
  obtain ⟨informed, still_told, attempts, frames⟩ := invariant_of_run preserved ran_on initially
  refine ⟨?_, attempts, ?_, ?_⟩
  · have counted : rest.countP StreamAction.own + final.phase.remaining ≤ stream.phase.remaining :=
      @countP_le_rank _ _ _ stream final Wound StreamAction.own (fun state => state.phase.remaining)
        preserved
        (fun _ _ _ wound stepped =>
          (winds_of_step wound.1 wound.2.1 (streamStep_of_step stepped)).rank)
        rest ran_on initially
    have at_most := stream.phase.remaining_le
    omega
  · have at_most := stream.phase.toRead_le
    omega
  · cases ended : final.phase.isOver with
    | true => exact .inl rfl
    | false => exact .inr (own_step_of_told informed still_told ended)

/-- A connected task is told to stop and ends at its next step. -/
theorem stops_promptly_sample :
    ∃ stream final, run (SseStream.step plainReader) (new false)
        [.check, .respond (.status 200) 0, .stop] = some stream ∧
      run (SseStream.step plainReader) stream [.pollShutdown] = some final ∧
        final.attempts.length = stream.attempts.length ∧
          final.frames.length ≤ stream.frames.length + 1 := by
  let stream : SseStream :=
    { new false with
      phase := .selecting 0
      shutdown := (Watch.new false).send true
      attempts := [{ start := 0, succeeded := true }] }
  have ran : run (SseStream.step plainReader) (new false)
      [.check, .respond (.status 200) 0, .stop] = some stream := rfl
  have ran_on : run (SseStream.step plainReader) stream [.pollShutdown] =
      some ({ stream with shutdown := { stream.shutdown with unseen := false } }.finish .returned) :=
    rfl
  obtain ⟨-, attempts, frames, -⟩ := stops_promptly ran rfl ran_on
  exact ⟨stream, _, ran, ran_on, attempts, frames⟩

end SseStream

end Loraterm
