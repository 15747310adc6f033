import Loraterm.ChunkerCalls
import Loraterm.EscapeStripper
import Loraterm.Quota
import Loraterm.TrustBoundary

/-!
# Configured numbers

The numbers of the configuration file reach five places unchecked: the two channel constructors,
the rate limiters, the sum of an instant and the silence threshold, and the cast of the idle
timeout.  Periods and bursts are clamped before they are used; the others are not.  Which
capacities above zero and which quotas the third-party constructors accept is a parameter.
-/

namespace Loraterm

open Utf8Text Mpsc Execution

/-- What third-party constructors accept; the others panic. -/
structure Constructors where
  /-- The greatest capacity of a channel. -/
  maxPermits : Nat
  /-- Whether a limiter can be built from a quota. -/
  limiterFits : Quota → Bool

namespace Session

/-- `spawn` with a bound on the capacity of the input channel. -/
def spawnLimited (built : Constructors) (peer : ValidatedPeer) (limits : LimitsConfig)
    (chunking : ChunkingConfig) (pty : Pty) (unixSecs : Nat) : Option Session :=
  if limits.inboundChannelDepth ≤ built.maxPermits then spawn peer limits chunking pty unixSecs
  else none

/-- The start of the actor with its limiter, which is built before the outbound queue. -/
def startLimited (built : Constructors) (session : Session) : Session :=
  if built.limiterFits (perPeerQuota session.limits) = true ∧
      session.limits.outboundChannelDepth ≤ built.maxPermits then session.start
  else session.crash

/-- One step of a session whose actor builds its limiter when it starts. -/
def limitedStep (strip : List UInt8 → List UInt8) (built : Constructors) (session : Session)
    (action : SessionAction) : Option Session :=
  match session.phase, action with
  | .starting, .actor _ => some (session.startLimited built)
  | _, action => session.step strip action

/-- No configured number makes the next step of the actor panic, and an idle tick closes the
session exactly when it was idle for longer than its timeout. -/
structure NumbersHold (strip : List UInt8 → List UInt8) (built : Constructors)
    (session : Session) : Prop where
  starts : session.phase = .starting → (session.startLimited built).phase ≠ .crashed
  deadline : session.phase = .selecting → session.chunker.nextDeadline ≠ none
  idle : session.phase = .listening → ∀ wake, wake.tick = true →
    (session.pollArms strip wake = session.leaveLoop strip .idle ↔
      (asSecs session.idleTimeout : Int) < asI64 wake.unixSecs - session.lastActivity)

end Session

/-- The daemon's limiter is built, a session can always be spawned, and its numbers hold in every
state it can reach, as long as no instant is beyond a horizon. -/
structure RunsSafely (strip : List UInt8 → List UInt8) (built : Constructors)
    (peer : ValidatedPeer) (limits : LimitsConfig) (chunking : ChunkingConfig) (horizon : Nat) :
    Prop where
  comes_up : built.limiterFits (globalQuota limits) = true
  spawns : ∀ pty unixSecs, Session.spawnLimited built peer limits chunking pty unixSecs ≠ none
  runs : ∀ inSize outSize unixSecs start schedule session,
    Session.spawnLimited built peer limits chunking (Pty.spawn inSize outSize) unixSecs =
        some start →
      (∀ wake, .actor wake ∈ schedule → wake.instant ≤ horizon) →
        run (Session.limitedStep strip built) start schedule = some session →
          session.NumbersHold strip built

/-! ## What a run keeps -/

namespace Session

variable {strip : List UInt8 → List UInt8} {built : Constructors}

/-- A call that takes place at an instant. -/
def CallAt (instant : Nat) : ChunkerCall → Prop
  | .push _ now => now = instant
  | .maybeFlush now => now = instant
  | .flushForce => True

/-- The chunker was called at most once, at the instant of the wake. -/
def ChunkerMoved (session : Session) (wake : Wake) (next : Session) : Prop :=
  next.chunker = session.chunker ∨
    ∃ call, CallAt wake.instant call ∧ next.chunker = session.chunker.after call

theorem chunkerMoved_leaveLoop (session : Session) (wake : Wake) (reason : Reason) :
    session.ChunkerMoved wake (session.leaveLoop strip reason) := by
  rw [leaveLoop]
  cases flushed : session.chunker.flushForce strip with
  | none => exact .inl rfl
  | some pair =>
      have called : session.chunker.call strip .flushForce = some pair := flushed
      exact .inr ⟨.flushForce, trivial, Chunker.after_of_call called⟩

theorem chunkerMoved_pollArms (session : Session) (wake : Wake) :
    session.ChunkerMoved wake (session.pollArms strip wake) := by
  simp only [pollArms]
  split
  · split
    · exact chunkerMoved_leaveLoop session wake _
    · exact .inl rfl
  · split
    · cases flushed : session.chunker.maybeFlush strip wake.instant with
      | none => exact .inl rfl
      | some pair =>
          have called : session.chunker.call strip (.maybeFlush wake.instant) = some pair := flushed
          exact .inr ⟨.maybeFlush wake.instant, rfl, Chunker.after_of_call called⟩
    · split
      · exact .inl rfl
      · split
        · exact chunkerMoved_leaveLoop session wake _
        · split
          · rename_i bytes output received
            cases pushed : session.chunker.push strip bytes wake.instant with
            | none => exact .inl rfl
            | some pair =>
                have called : session.chunker.call strip (.push bytes wake.instant) = some pair :=
                  pushed
                exact .inr ⟨.push bytes wake.instant, rfl, Chunker.after_of_call called⟩
          · split
            · exact chunkerMoved_leaveLoop session wake _
            · exact .inl rfl

theorem chunkerMoved_of_actor {session next : Session} {wake : Wake}
    (stepped : session.actor strip wake = some next) : session.ChunkerMoved wake next := by
  simp only [actor] at stepped
  split at stepped
  · obtain rfl := Option.some.inj stepped
    rw [start]
    split <;> exact .inl rfl
  · obtain rfl := Option.some.inj stepped
    rw [pollShutdown]
    split
    · exact .inl rfl
    · split
      · exact .inl rfl
      · exact chunkerMoved_leaveLoop session wake _
      · exact chunkerMoved_leaveLoop session wake _
  · obtain rfl := Option.some.inj stepped
    exact chunkerMoved_pollArms session wake
  · simp only [enqueueNext] at stepped
    split at stepped
    · obtain ⟨outbound, -, rfl⟩ := Option.map_eq_some_iff.mp stepped
      exact .inl rfl
    · split at stepped
      · obtain rfl := Option.some.inj stepped
        exact .inl rfl
      · obtain ⟨outbound, -, rfl⟩ := Option.map_eq_some_iff.mp stepped
        exact .inl rfl
  · simp only [forward] at stepped
    split at stepped
    · obtain rfl := Option.some.inj stepped
      exact .inl rfl
    · cases stepped
    · obtain rfl := Option.some.inj stepped
      exact chunkerMoved_leaveLoop session wake _
  · simp only [flushNext] at stepped
    split at stepped
    · obtain rfl := Option.some.inj stepped
      exact .inl rfl
    · obtain ⟨outbound, -, rfl⟩ := Option.map_eq_some_iff.mp stepped
      exact .inl rfl
  · simp only [join] at stepped
    split at stepped
    · obtain rfl := Option.some.inj stepped
      exact .inl rfl
    · cases stepped
  · obtain rfl := Option.some.inj stepped
    exact .inl rfl
  · cases stepped
  · cases stepped

/-- The numbers a session runs with, and the bound on the instants of its pushes. -/
structure Configured (peer : ValidatedPeer) (limits : LimitsConfig) (chunking : ChunkingConfig)
    (horizon : Nat) (session : Session) : Prop where
  peer : session.peer = peer
  limits : session.limits = limits
  silence : session.chunker.opts.flushSilence = chunking.flushSilence
  pushed : ∀ instant ∈ session.chunker.lastPush, instant ≤ horizon

theorem lastPush_after {chunker : Chunker} {call : ChunkerCall} {instant horizon : Nat}
    (at_instant : CallAt instant call) (bounded : instant ≤ horizon)
    (pushed : ∀ earlier ∈ chunker.lastPush, earlier ≤ horizon) :
    ∀ later ∈ (chunker.after call).lastPush, later ≤ horizon := by
  cases call with
  | push bytes now =>
      intro later is_later
      obtain rfl : now = later := Option.some.inj is_later
      rwa [show now = instant from at_instant]
  | maybeFlush now =>
      rw [Chunker.after]
      split
      · simp [Chunker.emptied]
      · exact pushed
  | flushForce => simp [Chunker.after, Chunker.emptied]

section

variable {peer : ValidatedPeer} {limits : LimitsConfig} {chunking : ChunkingConfig} {horizon : Nat}

theorem spawn_of_spawnLimited {pty : Pty} {unixSecs : Nat} {session : Session}
    (created : spawnLimited built peer limits chunking pty unixSecs = some session) :
    limits.inboundChannelDepth ≤ built.maxPermits ∧
      spawn peer limits chunking pty unixSecs = some session := by
  rw [spawnLimited] at created
  split at created
  · rename_i bounded
    exact ⟨bounded, created⟩
  · cases created

theorem Configured.step {session next : Session} {action : SessionAction}
    (configured : session.Configured peer limits chunking horizon)
    (bounded : ∀ wake, action = .actor wake → wake.instant ≤ horizon)
    (stepped : session.step strip action = some next) :
    next.Configured peer limits chunking horizon := by
  cases sessionStep_of_step stepped with
  | @acted wake next acted =>
      have kind := actorStep_of_actor acted
      have same_peer := kind.peer.trans configured.peer
      have same_limits := kind.limits.trans configured.limits
      rcases chunkerMoved_of_actor acted with kept | ⟨call, at_instant, moved⟩
      · exact ⟨same_peer, same_limits, by rw [kept, configured.silence],
          by rw [kept]; exact configured.pushed⟩
      · refine ⟨same_peer, same_limits, ?_, ?_⟩
        · rw [moved, Chunker.opts_after, configured.silence]
        · rw [moved]
          exact lastPush_after at_instant (bounded wake rfl) configured.pushed
  | _ => exact ⟨configured.peer, configured.limits, configured.silence, configured.pushed⟩

theorem Configured.limitedStep {session next : Session} {action : SessionAction}
    (configured : session.Configured peer limits chunking horizon)
    (bounded : ∀ wake, action = .actor wake → wake.instant ≤ horizon)
    (stepped : session.limitedStep strip built action = some next) :
    next.Configured peer limits chunking horizon := by
  simp only [Session.limitedStep] at stepped
  split at stepped
  · obtain rfl := Option.some.inj stepped
    rw [startLimited]
    split
    · rw [start]
      split <;> exact ⟨configured.peer, configured.limits, configured.silence, configured.pushed⟩
    · exact ⟨configured.peer, configured.limits, configured.silence, configured.pushed⟩
  · exact configured.step bounded stepped

end

end Session

/-! ## Numbers that fit -/

theorem bmod_of_upper_half {value modulus : Nat} (low : modulus ≤ 2 * value)
    (high : value < modulus) : Int.bmod value modulus < 0 := by
  have shifted := Int.sub_bmod_right value modulus
  rw [Int.bmod_eq_of_le (by omega) (by omega)] at shifted
  rw [← shifted]
  omega

/-- A number from the top half of the unsigned range is read as a negative one. -/
theorem asI64_of_large {value : Nat} (low : 2 ^ 63 ≤ value) (high : value < 2 ^ 64) :
    asI64 value < 0 := bmod_of_upper_half (by omega) high

namespace Session

variable {strip : List UInt8 → List UInt8} {built : Constructors} {peer : ValidatedPeer}
  {limits : LimitsConfig} {chunking : ChunkingConfig} {horizon : Nat}

/-- An idle tick leaves the loop exactly when the code's comparison says so. -/
theorem pollArms_tick_iff (session : Session) {wake : Wake} (tick : wake.tick = true) :
    session.pollArms strip wake = session.leaveLoop strip .idle ↔
      asI64 (asSecs session.idleTimeout) < asI64 wake.unixSecs - session.lastActivity := by
  rw [pollArms, if_pos tick]
  split
  · rename_i exceeded
    exact iff_of_true rfl exceeded
  · rename_i within
    refine iff_of_false ?_ within
    intro same
    have left := leaveLoop_inLoop strip session .idle
    rw [← same] at left
    cases left

end Session

namespace Session

variable {strip : List UInt8 → List UInt8} {built : Constructors} {peer : ValidatedPeer}
  {limits : LimitsConfig} {chunking : ChunkingConfig}

theorem exists_spawn (peer : ValidatedPeer) (chunking : ChunkingConfig)
    (opened : limits.inboundChannelDepth ≠ 0 ∧ limits.inboundChannelDepth ≤ built.maxPermits)
    (pty : Pty) (unixSecs : Nat) :
    ∃ start, spawnLimited built peer limits chunking pty unixSecs = some start := by
  rw [spawnLimited, if_pos opened.2, spawn, Channel.new, if_neg opened.1]
  exact ⟨_, rfl⟩

theorem spawn_fields {pty : Pty} {unixSecs : Nat} {start : Session}
    (created : spawn peer limits chunking pty unixSecs = some start) :
    start.limits = limits ∧ start.chunker = .new (chunkerOpts peer limits chunking) ∧
      start.lastActivity = asI64 unixSecs := by
  obtain ⟨input, -, rfl⟩ := Option.map_eq_some_iff.mp created
  simp only [and_self]

/-- A session whose limiter and outbound queue can be built gets to its loop. -/
theorem limitedStep_starting {session : Session} (starting : session.phase = .starting)
    (limited : built.limiterFits (perPeerQuota session.limits) = true)
    (opened : session.limits.outboundChannelDepth ≠ 0 ∧
      session.limits.outboundChannelDepth ≤ built.maxPermits) (wake : Wake) :
    session.limitedStep strip built (.actor wake) =
      some { session with phase := .selecting } := by
  simp only [limitedStep, starting]
  rw [startLimited, if_pos ⟨limited, opened.2⟩, start, if_neg opened.1]

/-- The wake-ups and the output of one letter that leave it buffered. -/
def letterSchedule (horizon : Nat) : List SessionAction :=
  [.actor (.plain horizon 0), .pty (.childWrite [0x61]), .pty (.readerRead 1), .pty .readerSend,
    .actor (.plain horizon 0), .actor (.plain horizon 0)]

/-- One letter of output is buffered with the instant of its push. -/
theorem run_letterSchedule (horizon : Nat) {start : Session} (outbound_depth inbound_depth : Nat)
    (opts : ChunkerOpts) (chunker : start.chunker = .new opts) (waiting : start.shutdown = .waiting)
    (outbound : start.outbound = .new (.empty outbound_depth))
    (input : start.input = .empty inbound_depth) (pty : start.pty = Pty.spawn 0 1) :
    ∃ session, run (limitedStep strip built) { start with phase := .selecting }
        (letterSchedule horizon) = some session ∧ session.phase = .selecting ∧
      session.chunker = { opts, buf := [0x61], lastPush := some horizon } := by
  cases start
  subst chunker waiting outbound input pty
  exact ⟨_, rfl, rfl, rfl⟩

theorem limitedStep_selecting {start : Session} (opts : ChunkerOpts)
    (chunker : start.chunker = .new opts) (waiting : start.shutdown = .waiting) (wake : Wake) :
    limitedStep strip built { start with phase := .selecting } (.actor wake) =
      some { start with phase := .listening } := by
  cases start
  subst chunker waiting
  rfl

end Session

section

open Session

variable {strip : List UInt8 → List UInt8} {built : Constructors} {peer : ValidatedPeer}
  {limits : LimitsConfig} {chunking : ChunkingConfig} {horizon : Nat}

theorem RunsSafely.inbound (safe : RunsSafely strip built peer limits chunking horizon) :
    limits.inboundChannelDepth ≠ 0 ∧ limits.inboundChannelDepth ≤ built.maxPermits := by
  obtain ⟨start, created⟩ := Option.ne_none_iff_exists'.mp (safe.spawns (Pty.spawn 0 0) 0)
  obtain ⟨bounded, created⟩ := spawn_of_spawnLimited created
  exact ⟨Nat.ne_of_gt (fresh_of_spawn created).depth, bounded⟩

/-- The first step of the actor builds the limiter and the outbound queue. -/
theorem RunsSafely.starts (safe : RunsSafely strip built peer limits chunking horizon) :
    built.limiterFits (perPeerQuota limits) = true ∧
      limits.outboundChannelDepth ≠ 0 ∧ limits.outboundChannelDepth ≤ built.maxPermits := by
  obtain ⟨start, made⟩ := exists_spawn peer chunking safe.inbound (Pty.spawn 0 0) 0
  have created := (spawn_of_spawnLimited made).2
  have same_limits := (spawn_fields created).1
  have begun := (safe.runs 0 0 0 start [] start made (by simp) rfl).starts
    (fresh_of_spawn created).phase
  rw [startLimited, same_limits] at begun
  split at begun
  · rename_i limited
    refine ⟨limited.1, fun zero => begun ?_, limited.2⟩
    rw [Session.start, same_limits, if_pos zero]
    rfl
  · exact (begun rfl).elim

/-- A session can be spawned and gets to its loop. -/
theorem RunsSafely.begins (safe : RunsSafely strip built peer limits chunking horizon) (pty : Pty)
    (wake : Wake) :
    ∃ start, spawnLimited built peer limits chunking pty 0 = some start ∧
      spawn peer limits chunking pty 0 = some start ∧
        limitedStep strip built start (.actor wake) = some { start with phase := .selecting } := by
  obtain ⟨limited, opened⟩ := safe.starts
  obtain ⟨start, made⟩ := exists_spawn peer chunking safe.inbound pty 0
  have created := (spawn_of_spawnLimited made).2
  have same_limits := (spawn_fields created).1
  rw [← same_limits] at limited opened
  exact ⟨start, made, created, limitedStep_starting (fresh_of_spawn created).phase limited opened wake⟩

/-- An idle tick right at the start closes a session whose timeout reads as a negative number. -/
theorem RunsSafely.idle (safe : RunsSafely strip built peer limits chunking horizon)
    (duration : asSecs (peer.idleTimeout.getD limits.idleTimeout) < 2 ^ 64) :
    asSecs (peer.idleTimeout.getD limits.idleTimeout) < 2 ^ 63 := by
  obtain ⟨start, made, created, began⟩ := safe.begins (Pty.spawn 0 0) (.plain horizon 0)
  obtain ⟨same_limits, new_chunker, touched⟩ := spawn_fields created
  have fresh := fresh_of_spawn created
  have polled := @limitedStep_selecting strip built start _ new_chunker fresh.shutdown
    (.plain horizon 0)
  have ran : run (limitedStep strip built) start
      [.actor (.plain horizon 0), .actor (.plain horizon 0)] =
        some { start with phase := .listening } :=
    run_cons_eq_some.mpr ⟨_, began, run_cons_eq_some.mpr ⟨_, polled, rfl⟩⟩
  have hold := (safe.runs 0 0 0 start _ _ made (by simp [Wake.plain]) ran).idle rfl
    (.ticking horizon 0) rfl
  rw [pollArms_tick_iff _ rfl] at hold
  by_contra large
  have idle_eq : idleTimeout { start with phase := .listening } =
      peer.idleTimeout.getD limits.idleTimeout := by
    rw [idleTimeout, fresh.peer, same_limits]
  have now_eq : asI64 (Wake.ticking horizon 0).unixSecs -
      (Session.lastActivity { start with phase := .listening }) = 0 := by
    rw [show Session.lastActivity { start with phase := .listening } = asI64 0 from touched]
    exact Int.sub_self _
  rw [idle_eq, now_eq] at hold
  have closed := hold.mp (asI64_of_large (by omega) duration)
  omega

/-- A letter pushed at the horizon has its silence deadline in range. -/
theorem RunsSafely.silence (safe : RunsSafely strip built peer limits chunking horizon) :
    horizon + chunking.flushSilence ≤ maxInstant := by
  obtain ⟨start, made, created, began⟩ := safe.begins (Pty.spawn 0 1) (.plain horizon 0)
  obtain ⟨-, new_chunker, -⟩ := spawn_fields created
  have fresh := fresh_of_spawn created
  obtain ⟨session, ran, selecting, buffered⟩ := @run_letterSchedule strip built horizon start
    _ _ _ new_chunker fresh.shutdown fresh.outbound fresh.input fresh.pty
  have bounded : ∀ wake, .actor wake ∈ .actor (.plain horizon 0) :: letterSchedule horizon →
      wake.instant ≤ horizon := by
    intro wake member
    simp [letterSchedule] at member
    simp [member, Wake.plain]
  have hold := (safe.runs 0 1 0 start _ session made bounded
    (run_cons_eq_some.mpr ⟨_, began, ran⟩)).deadline selecting
  rw [buffered] at hold
  by_contra beyond
  apply hold
  have beyond : ¬ horizon + (chunkerOpts peer limits chunking).flushSilence ≤ maxInstant := beyond
  simp [Chunker.nextDeadline, instantAdd, beyond]

end

end Loraterm
