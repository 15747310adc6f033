import Loraterm.Library.Execution
import Loraterm.SseStream

/-!
# How often the stream task asks

Two requests in a row lie at least the backoff apart, which doubles up to a minute while requests
fail.  No run asks more often than once a second, and none waits longer than a minute and the
jitter.
-/

namespace Loraterm

open Execution Retry Pacing Mpsc WatchChannel

namespace SseStream

/-- The next request may start at an instant: the delay after the last one is over. -/
def DueAt (attempts : List Attempt) (instant : Nat) : Prop :=
  ∀ earlier last, attempts = earlier ++ [last] →
    last.start + delayAfter firstDelay (Retry.backoff firstDelay backoffCap earlier) last ≤ instant

/-- The backoff is the delay after the last request. -/
def FollowsLast (attempts : List Attempt) (backoff : Nat) (granted : Bool → Prop) (instant : Nat) :
    Prop :=
  ∃ earlier last, attempts = earlier ++ [last] ∧ granted last.succeeded ∧
    backoff = delayAfter firstDelay (Retry.backoff firstDelay backoffCap earlier) last ∧
      last.start ≤ instant

/-- What the backoff and the deadline are in each phase. -/
def Scheduled (stream : SseStream) : Prop :=
  match stream.phase with
  | .top =>
      stream.backoff = Retry.backoff firstDelay backoffCap stream.attempts ∧
        DueAt stream.attempts stream.clock
  | .connecting => FollowsLast stream.attempts stream.backoff (· = false) stream.clock
  | .selecting _ => FollowsLast stream.attempts stream.backoff (fun _ => True) stream.clock
  | .listening _ => FollowsLast stream.attempts stream.backoff (fun _ => True) stream.clock
  | .handing _ _ => FollowsLast stream.attempts stream.backoff (fun _ => True) stream.clock
  | .sleeping deadline =>
      FollowsLast stream.attempts stream.backoff (fun _ => True) (deadline - stream.backoff) ∧
        stream.backoff ≤ deadline ∧ deadline < stream.clock + (backoffCap + 500000000)
  | .returned => True
  | .panicked => True

/-- The requests so far are spaced, and so will be the next. -/
structure Retries (stream : SseStream) : Prop where
  sending : stream.shutdown.sending = true
  /-- Nothing but the order to stop is ever sent. -/
  order : stream.shutdown.unseen = true → stream.shutdown.value = true
  doubled : ∃ count, stream.backoff = (grow backoffCap)^[count] firstDelay
  spaced : Spaced firstDelay backoffCap stream.attempts
  scheduled : stream.Scheduled

theorem firstDelay_le_backoffCap : firstDelay ≤ backoffCap := by decide

theorem jitter_lt (random : Nat) : jitter random < 500000000 := by
  have below := Nat.mod_lt random (show 0 < 500 by decide)
  rw [jitter]
  omega

theorem markSuccess_concat (earlier : List Attempt) (last : Attempt) :
    markSuccess (earlier ++ [last]) = earlier ++ [{ last with succeeded := true }] := by
  rw [markSuccess, List.length_append, List.length_singleton, Nat.add_sub_cancel,
    List.modify_eq_set_getElem?]
  simp

theorem FollowsLast.later {attempts : List Attempt} {backoff instant later : Nat}
    {granted : Bool → Prop} (follows : FollowsLast attempts backoff granted instant)
    (le : instant ≤ later) : FollowsLast attempts backoff (fun _ => True) later := by
  obtain ⟨earlier, last, attempts_eq, -, backoff_eq, past⟩ := follows
  exact ⟨earlier, last, attempts_eq, trivial, backoff_eq, past.trans le⟩

/-- After the delay the next request is due. -/
theorem FollowsLast.due {attempts : List Attempt} {backoff instant : Nat} {granted : Bool → Prop}
    (follows : FollowsLast attempts backoff granted instant) :
    grow backoffCap backoff = Retry.backoff firstDelay backoffCap attempts ∧
      DueAt attempts (instant + backoff) := by
  obtain ⟨earlier, last, rfl, -, backoff_eq, past⟩ := follows
  refine ⟨by rw [backoff_concat, backoff_eq], fun front final split => ?_⟩
  obtain ⟨rfl, rfl⟩ := List.append_singleton_inj.mp split
  rw [← backoff_eq]
  omega

theorem Retries.le_backoff {stream : SseStream} (retries : stream.Retries) :
    stream.backoff ≤ backoffCap := by
  obtain ⟨count, backoff_eq⟩ := retries.doubled
  rw [backoff_eq, iterate_grow firstDelay_le_backoffCap]
  exact min_le_right _ _

/-- The delay that begins after a request. -/
theorem Retries.retry {stream : SseStream} (retries : stream.Retries) (random : Nat)
    {granted : Bool → Prop}
    (follows : FollowsLast stream.attempts stream.backoff granted stream.clock) :
    (stream.retry random).Retries where
  sending := retries.sending
  order := retries.order
  doubled := retries.doubled
  spaced := retries.spaced
  scheduled := by
    have short := jitter_lt random
    have capped := retries.le_backoff
    refine ⟨follows.later ?_, ?_, ?_⟩
    · show stream.clock ≤ stream.clock + (stream.backoff + jitter random) - stream.backoff
      omega
    · show stream.backoff ≤ stream.clock + (stream.backoff + jitter random)
      omega
    · show stream.clock + (stream.backoff + jitter random) <
        stream.clock + (backoffCap + 500000000)
      omega

/-- The task is at the top again when the delay is over. -/
theorem Retries.resume {stream : SseStream} {deadline : Nat} (retries : stream.Retries)
    (sleeping : stream.phase = .sleeping deadline) (past : deadline ≤ stream.clock) :
    stream.resume.Retries where
  sending := retries.sending
  order := retries.order
  doubled := by
    obtain ⟨count, backoff_eq⟩ := retries.doubled
    refine ⟨count + 1, ?_⟩
    rw [Function.iterate_succ_apply', ← backoff_eq]
    rfl
  spaced := retries.spaced
  scheduled := by
    have scheduled := retries.scheduled
    rw [Scheduled, sleeping] at scheduled
    obtain ⟨follows, enough, -⟩ := scheduled
    obtain ⟨grown, due⟩ := follows.due
    refine ⟨grown, fun earlier last split => (due earlier last split).trans ?_⟩
    show deadline - stream.backoff + stream.backoff ≤ stream.clock
    omega

/-- The end of the task changes neither requests nor backoff. -/
theorem Retries.finish {stream : SseStream} {phase : StreamPhase} (retries : stream.Retries)
    (ended : phase.isOver = true) : (stream.finish phase).Retries where
  sending := retries.sending
  order := retries.order
  doubled := retries.doubled
  spaced := retries.spaced
  scheduled := by
    cases phase with
    | returned => trivial
    | panicked => trivial
    | _ => cases ended

variable {reader : JsonReader} {stream next : SseStream} {action : StreamAction}

/-- A request that is due keeps the requests spaced. -/
theorem Retries.request (retries : stream.Retries) (at_top : stream.phase = .top) :
    Retries
      { stream with
        attempts := stream.attempts ++ [{ start := stream.clock, succeeded := false }]
        phase := .connecting } where
  sending := retries.sending
  order := retries.order
  doubled := retries.doubled
  spaced := by
    have scheduled := retries.scheduled
    rw [Scheduled, at_top] at scheduled
    rcases List.eq_nil_or_concat' stream.attempts with empty | ⟨earlier, last, attempts_eq⟩
    · rw [empty]
      exact Spaced.singleton _
    · have due := scheduled.2 earlier last attempts_eq
      have spaced := retries.spaced
      rw [attempts_eq] at spaced ⊢
      exact spaced.concat due
  scheduled := by
    have scheduled := retries.scheduled
    rw [Scheduled, at_top] at scheduled
    exact ⟨stream.attempts, _, rfl, rfl, scheduled.1, Nat.le_refl _⟩

/-- A request that is granted starts the backoff anew. -/
theorem Retries.grant (retries : stream.Retries) (connecting : stream.phase = .connecting) :
    Retries
      { stream with
        backoff := firstDelay
        attempts := markSuccess stream.attempts
        phase := .selecting stream.clock } := by
  have scheduled := retries.scheduled
  rw [Scheduled, connecting] at scheduled
  obtain ⟨earlier, last, attempts_eq, -, -, past⟩ := scheduled
  have spaced := retries.spaced
  rw [attempts_eq] at spaced ⊢
  rw [markSuccess_concat]
  have restarted : firstDelay =
      delayAfter firstDelay (Retry.backoff firstDelay backoffCap earlier)
        { last with succeeded := true } := by
    simp [delayAfter]
  exact ⟨retries.sending, retries.order, ⟨0, (Function.iterate_zero_apply _ _).symm⟩,
    spaced.replace_last rfl, ⟨earlier, _, rfl, trivial, restarted, past⟩⟩

/-- Being told changes neither requests nor backoff. -/
theorem Retries.told {shutdown : Watch Bool} (retries : stream.Retries)
    (changed : stream.shutdown.changed = some shutdown) :
    shutdown.value = true ∧ Retries ({ stream with shutdown }.finish .returned) := by
  obtain ⟨unseen, rfl⟩ := Watch.unseen_of_changed retries.sending changed
  refine ⟨retries.order unseen, ?_⟩
  exact
    { sending := retries.sending
      order := by
        intro again
        cases again
      doubled := retries.doubled
      spaced := retries.spaced
      scheduled := trivial }

/-- The passing of time leaves what is scheduled. -/
theorem Scheduled.wait (scheduled : stream.Scheduled) (duration : Nat) :
    Scheduled { stream with clock := stream.clock + duration } := by
  have passed : stream.clock ≤ stream.clock + duration := Nat.le_add_right _ _
  rw [Scheduled] at scheduled
  cases phase_eq : stream.phase with
  | top =>
      rw [phase_eq] at scheduled
      simp only [Scheduled]
      exact ⟨scheduled.1, fun earlier last split => (scheduled.2 earlier last split).trans passed⟩
  | connecting =>
      rw [phase_eq] at scheduled
      simp only [Scheduled]
      obtain ⟨earlier, last, attempts_eq, unanswered, backoff_eq, past⟩ := scheduled
      exact ⟨earlier, last, attempts_eq, unanswered, backoff_eq, past.trans passed⟩
  | selecting =>
      rw [phase_eq] at scheduled
      simp only [Scheduled]
      exact scheduled.later passed
  | listening =>
      rw [phase_eq] at scheduled
      simp only [Scheduled]
      exact scheduled.later passed
  | handing =>
      rw [phase_eq] at scheduled
      simp only [Scheduled]
      exact scheduled.later passed
  | sleeping deadline =>
      rw [phase_eq] at scheduled
      simp only [Scheduled]
      exact ⟨scheduled.1, scheduled.2.1, by omega⟩
  | returned => simp only [Scheduled]
  | panicked => simp only [Scheduled]

theorem follows_of_scheduled (scheduled : stream.Scheduled)
    (connected : (∃ since, stream.phase = .selecting since) ∨
      (∃ since, stream.phase = .listening since) ∨
        ∃ event comment, stream.phase = .handing event comment) :
    FollowsLast stream.attempts stream.backoff (fun _ => True) stream.clock := by
  rw [Scheduled] at scheduled
  obtain ⟨_, phase_eq⟩ | ⟨_, phase_eq⟩ | ⟨_, _, phase_eq⟩ := connected
  · rw [phase_eq] at scheduled
    exact scheduled
  · rw [phase_eq] at scheduled
    exact scheduled
  · rw [phase_eq] at scheduled
    exact scheduled

theorem Retries.step (retries : stream.Retries)
    (stepped : StreamStep reader stream action next) : next.Retries := by
  have scheduled := retries.scheduled
  cases stepped with
  | left at_top told => exact retries.finish rfl
  | requested at_top untold => exact retries.request at_top
  | granted connecting => exact retries.grant connecting
  | refused connecting =>
      rw [Scheduled, connecting] at scheduled
      exact retries.retry _ scheduled
  | undisturbed selecting waits =>
      have follows := follows_of_scheduled scheduled (.inl ⟨_, selecting⟩)
      exact ⟨retries.sending, retries.order, retries.doubled, retries.spaced, follows⟩
  | stopped selecting changed told => exact (retries.told changed).2
  | disturbed selecting changed untold =>
      rw [(retries.told changed).1] at untold
      cases untold
  | accepted listening =>
      have follows := follows_of_scheduled scheduled (.inr (.inl ⟨_, listening⟩))
      rw [accept]
      split
      · exact ⟨retries.sending, retries.order, retries.doubled, retries.spaced, trivial⟩
      · exact ⟨retries.sending, retries.order, retries.doubled, retries.spaced, follows⟩
  | dropped listening =>
      exact retries.retry _ (follows_of_scheduled scheduled (.inr (.inl ⟨_, listening⟩)))
  | silent listening =>
      have follows := follows_of_scheduled scheduled (.inr (.inl ⟨_, listening⟩))
      exact ⟨retries.sending, retries.order, retries.doubled, retries.spaced, follows⟩
  | handed handing sent =>
      have follows := follows_of_scheduled scheduled (.inr (.inr ⟨_, _, handing⟩))
      exact ⟨retries.sending, retries.order, retries.doubled, retries.spaced, follows⟩
  | ignored handing closed =>
      have follows := follows_of_scheduled scheduled (.inr (.inr ⟨_, _, handing⟩))
      exact ⟨retries.sending, retries.order, retries.doubled, retries.spaced, follows⟩
  | disconnected handing closed => exact retries.finish rfl
  | woken sleeping past => exact retries.resume sleeping past
  | roused sleeping changed untold =>
      rw [(retries.told changed).1] at untold
      cases untold
  | noticed sleeping changed told => exact (retries.told changed).2
  | waited duration =>
      exact ⟨retries.sending, retries.order, retries.doubled, retries.spaced,
        scheduled.wait duration⟩
  | received taken =>
      exact ⟨retries.sending, retries.order, retries.doubled, retries.spaced, scheduled⟩
  | asked => exact ⟨retries.sending, fun _ => rfl, retries.doubled, retries.spaced, scheduled⟩

theorem retries_of_run {logged : Bool} {schedule : List StreamAction}
    (ran : run (SseStream.step reader) (new logged) schedule = some stream) : stream.Retries := by
  have initially : (new logged).Retries := by
    refine ⟨rfl, fun unseen => ?_, ⟨0, (Function.iterate_zero_apply _ _).symm⟩, Spaced.nil, ?_⟩
    · cases unseen
    · have no_last : DueAt [] 0 := fun earlier last split => by simp at split
      exact ⟨(backoff_nil firstDelay backoffCap).symm, no_last⟩
  exact invariant_of_run
    (fun _ _ _ retries stepped => Retries.step retries (streamStep_of_step stepped)) ran initially

/-- In every run of the stream task the delay is always a second doubled some number of times, up to
a minute; the requests keep the pace of one a second; failures in a row take the sum of their
delays; and the next request is never more than a minute and the jitter away. -/
theorem requests_spaced {logged : Bool} {schedule : List StreamAction}
    (ran : run (SseStream.step reader) (new logged) schedule = some stream) :
    (∃ count, stream.backoff = min (2 ^ count * fromSecs 1) (fromSecs 60)) ∧
      Paced 1 (fromSecs 1) (stream.attempts.map Attempt.start) ∧
        (∀ earlier first failed next later,
          stream.attempts = earlier ++ first :: failed ++ next :: later →
            (∀ attempt ∈ first :: failed, attempt.succeeded = false) →
              first.start +
                  ∑ i ∈ Finset.range (failed.length + 1), min (2 ^ i * fromSecs 1) (fromSecs 60) ≤
                next.start) ∧
          ∀ deadline, stream.phase = .sleeping deadline →
            deadline < stream.clock + (fromSecs 60 + 500000000) := by
  have retries := retries_of_run ran
  have positive : 0 < firstDelay := by decide
  refine ⟨?_, retries.spaced.paced positive firstDelay_le_backoffCap, ?_, fun deadline sleeping => ?_⟩
  · obtain ⟨count, backoff_eq⟩ := retries.doubled
    exact ⟨count, backoff_eq.trans (iterate_grow firstDelay_le_backoffCap count)⟩
  · intro earlier first failed next later attempts_eq failures
    have spaced := retries.spaced
    rw [attempts_eq] at spaced
    have at_least : waited backoffCap firstDelay (failed.length + 1) ≤
        waited backoffCap (Retry.backoff firstDelay backoffCap earlier) (failed.length + 1) :=
      waited_mono (le_backoff firstDelay_le_backoffCap earlier) _
    have taken := spaced.waited_le failures
    rw [waited_eq_sum firstDelay_le_backoffCap] at at_least
    exact (Nat.add_le_add_left at_least first.start).trans taken
  · have scheduled := retries.scheduled
    rw [Scheduled, sleeping] at scheduled
    exact scheduled.2.2

/-- A request fails, and the next is sent a second later. -/
theorem requests_spaced_sample :
    ∃ stream, run (SseStream.step plainReader) (new false)
        [.check, .respond (.status 503) 7, .wait (fromSecs 2), .wake, .check] = some stream ∧
      (∃ count, stream.backoff = min (2 ^ count * fromSecs 1) (fromSecs 60)) ∧
        Paced 1 (fromSecs 1) (stream.attempts.map Attempt.start) := by
  have completes : (run (SseStream.step plainReader) (new false)
      [.check, .respond (.status 503) 7, .wait (fromSecs 2), .wake, .check]).isSome = true := by
    decide +kernel
  obtain ⟨stream, ran⟩ := Option.isSome_iff_exists.mp completes
  obtain ⟨doubled, paced, -⟩ := requests_spaced ran
  exact ⟨stream, ran, doubled, paced⟩

end SseStream

end Loraterm
