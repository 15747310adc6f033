import Loraterm.Library.Pacing
import Loraterm.Quota
import Loraterm.TrustBoundary

/-!
# The rate of sends

The sender task waits for the limiter of its session, then for the limiter all sessions share, and
then calls `send_dm`.  A session's limiter is built with the session and forgets what earlier
sessions of the peer sent, and its permit is taken before the second wait.  The metered daemon is
the daemon with a clock, the limiters and a record of the calls.
-/

namespace Loraterm

open Utf8Text Mpsc Execution Pacing

/-! ## Limiters -/

/-- The permits a limiter gave away, each when it was ready. -/
inductive Granted (ready : List Nat → Nat → Bool) : List Nat → Prop
  | nil : Granted ready []
  | concat {grants : List Nat} {now : Nat} (granted : Granted ready grants)
      (latest : ∀ grant ∈ grants, grant ≤ now) (is_ready : ready grants now = true) :
      Granted ready (grants ++ [now])

theorem Granted.latest_of_concat {ready : List Nat → Nat → Bool} {grants : List Nat} {now : Nat}
    (granted : Granted ready (grants ++ [now])) : ∀ grant ∈ grants, grant ≤ now := by
  generalize all_eq : grants ++ [now] = all at granted
  cases granted with
  | nil => simp at all_eq
  | concat granted latest is_ready =>
      obtain ⟨rfl, rfl⟩ := List.append_singleton_inj.mp all_eq
      exact latest

/-- Whether a limiter with a quota gives away a permit, by the permits it gave away before. -/
structure RateLimiter where
  ready : Quota → List Nat → Nat → Bool
  paced : ∀ quota grants, Granted (ready quota) grants → Paced quota.burst quota.period grants
  /-- A limiter starts with a full burst. -/
  full : ∀ quota grants now, Granted (ready quota) grants → (∀ grant ∈ grants, grant ≤ now) →
    grants.length < quota.burst → ready quota grants now = true

/-- A bucket gives a permit away when it misses less than a burst of them. -/
def bucketReady (quota : Quota) (grants : List Nat) (now : Nat) : Bool :=
  decide (fullAt quota.period grants now ≤ now + (quota.burst - 1) * quota.period)

/-- The limiter that counts with a bucket. -/
def bucket : RateLimiter where
  ready := bucketReady
  paced quota grants granted := by
    induction granted with
    | nil => exact Paced.nil _ _
    | concat granted latest is_ready ih =>
        exact (paced_concat_iff quota.burst_pos quota.period_pos latest).mpr
          ⟨ih, of_decide_eq_true is_ready⟩
  full quota grants now _ latest few := decide_eq_true (fullAt_le_of_length_lt latest few)

theorem Granted.pairwise {ready : List Nat → Nat → Bool} {grants : List Nat}
    (granted : Granted ready grants) : grants.Pairwise (· ≤ ·) := by
  induction granted with
  | nil => exact .nil
  | concat granted latest is_ready ih =>
      refine List.pairwise_append.mpr ⟨ih, List.pairwise_singleton _ _, ?_⟩
      intro grant member now is_now
      rw [List.mem_singleton.mp is_now]
      exact latest grant member

/-- A bucket gives away every permit that keeps its pace. -/
theorem granted_append_of_paced {quota : Quota} {grants extra : List Nat}
    (granted : Granted (bucketReady quota) grants) (ordered : (grants ++ extra).Pairwise (· ≤ ·))
    (paced : Paced quota.burst quota.period (grants ++ extra)) :
    Granted (bucketReady quota) (grants ++ extra) := by
  induction extra using List.reverseRecOn with
  | nil => rwa [List.append_nil]
  | append_singleton extra now ih =>
      rw [← List.append_assoc] at ordered paced ⊢
      obtain ⟨ordered_before, -, latest⟩ := List.pairwise_append.mp ordered
      have latest : ∀ grant ∈ grants ++ extra, grant ≤ now := fun grant member =>
        latest grant member now (by simp)
      obtain ⟨paced_before, left⟩ :=
        (paced_concat_iff quota.burst_pos quota.period_pos latest).mp paced
      exact (ih ordered_before paced_before).concat latest (decide_eq_true left)

/-! ## The metered daemon -/

/-- Where a sender task is on its way through the two limiters. -/
inductive GatePhase
  | closed
  /-- The session's own limiter gave it a permit at an instant. -/
  | permitted (permit : Nat)
  /-- The shared limiter gave it one too. -/
  | admitted (permit : Nat)
  deriving DecidableEq, Repr

/-- The permit in hand. -/
def GatePhase.pending : GatePhase → List Nat
  | .closed => []
  | .permitted permit => [permit]
  | .admitted permit => [permit]

/-- A session's own limiter, as the sender task sees it. -/
structure Gate where
  /-- The permits of the calls started so far. -/
  used : List Nat
  phase : GatePhase
  deriving DecidableEq, Repr

/-- A limiter that gave away nothing. -/
def Gate.new : Gate := { used := [], phase := .closed }

/-- All permits the limiter gave away. -/
def Gate.grants (gate : Gate) : List Nat := gate.used ++ gate.phase.pending

/-- A started call of `send_dm`. -/
structure Call where
  session : Nat
  pubkey : Text
  instant : Nat
  deriving DecidableEq, Repr

/-- The daemon with its clock and its limiters. -/
structure Metered where
  daemon : Daemon
  clock : Nat
  /-- The limiter of each session. -/
  gates : Nat → Gate
  /-- The permits of the shared limiter. -/
  admissions : List Nat
  calls : List Call

/-- The steps of the metered daemon. -/
inductive MeteredAction
  | wait (duration : Nat)
  /-- The limiter of a session gives its sender task a permit. -/
  | permit (index : Nat)
  /-- The shared limiter does. -/
  | enter (index : Nat)
  /-- The sender task starts `send_dm`. -/
  | start (index : Nat)
  | daemon (action : DaemonAction)

/-- Whether an action is not a call and takes place at an instant. -/
def DaemonAction.unmetered (instant : Nat) : DaemonAction → Bool
  | .session _ .senderSend => false
  | .session _ (.actor wake) => wake.instant = instant
  | _ => true

namespace Daemon

variable {strip : List UInt8 → List UInt8} {reader : JsonReader}

/-- Sessions keep the limits they were spawned with, those of the daemon. -/
theorem sessions_limits_of_step {daemon next : Daemon} {action : DaemonAction}
    (same : ∀ session ∈ daemon.sessions, session.limits = daemon.limits)
    (stepped : DaemonStep strip reader daemon action next) :
    ∀ session ∈ next.sessions, session.limits = next.limits := by
  rw [limits_of_step stepped]
  refine session_invariant ?_ ?_ same stepped
  · intro peer terminal unixSecs session created
    obtain ⟨input, -, rfl⟩ := Option.map_eq_some_iff.mp created
    rfl
  · intro session act moved holds session_stepped
    rw [Session.limits_of_step session_stepped, holds]

end Daemon

namespace Metered

/-- The metered daemon as its loop starts. -/
def new (limits : LimitsConfig) (chunking : ChunkingConfig) (whitelist : Whitelist) : Metered where
  daemon := .new limits chunking whitelist
  clock := 0
  gates _ := .new
  admissions := []
  calls := []

/-- The instants of the calls for a peer. -/
def callTimes (metered : Metered) (pubkey : Text) : List Nat :=
  (metered.calls.filter fun call => decide (call.pubkey = pubkey)).map Call.instant

/-- Replace the limiter of a session. -/
def setGate (metered : Metered) (index : Nat) (gate : Gate) : Metered :=
  { metered with gates := Function.update metered.gates index gate }

variable (strip : List UInt8 → List UInt8) (reader : JsonReader) (limiter : RateLimiter)

/-- The first wait of the sender task, over when the session's limiter is ready. -/
def permit (metered : Metered) (index : Nat) : Option Metered :=
  match (metered.gates index).phase with
  | .closed =>
      (metered.daemon.sessions[index]?).bind fun session =>
        if session.sender.inHand ≠ [] ∧ limiter.ready (perPeerQuota session.limits)
            (metered.gates index).used metered.clock = true then
          some (metered.setGate index
            { metered.gates index with phase := .permitted metered.clock })
        else none
  | _ => none

/-- The second wait, over when the shared limiter is ready. -/
def enter (metered : Metered) (index : Nat) : Option Metered :=
  match (metered.gates index).phase with
  | .permitted permit =>
      if limiter.ready (globalQuota metered.daemon.limits) metered.admissions metered.clock then
        some { metered.setGate index { metered.gates index with phase := .admitted permit } with
               admissions := metered.admissions ++ [metered.clock] }
      else none
  | _ => none

/-- The call of `send_dm`. -/
def start (metered : Metered) (index : Nat) : Option Metered :=
  match (metered.gates index).phase with
  | .admitted permit =>
      (metered.daemon.sessions[index]?).bind fun session =>
        (metered.daemon.step strip reader (.session index .senderSend)).map fun daemon =>
          { metered.setGate index
              { used := (metered.gates index).used ++ [permit], phase := .closed } with
            daemon
            calls := metered.calls ++
              [{ session := index, pubkey := session.peer.pubkey, instant := metered.clock }] }
  | _ => none

/-- One step of the metered daemon. -/
def step (metered : Metered) : MeteredAction → Option Metered
  | .wait duration => some { metered with clock := metered.clock + duration }
  | .permit index => metered.permit limiter index
  | .enter index => metered.enter limiter index
  | .start index => metered.start strip reader index
  | .daemon action =>
      if action.unmetered metered.clock = true then
        (metered.daemon.step strip reader action).map fun daemon => { metered with daemon }
      else none

/-- A call starts while the session's own limiter is no fuller than one that had been charged with
every call for the peer. -/
def StartsCharged (metered : Metered) : MeteredAction → Prop
  | .start index =>
      ∀ session, metered.daemon.sessions[index]? = some session →
        fullAt (perPeerQuota session.limits).period (metered.callTimes session.peer.pubkey)
            metered.clock ≤
          fullAt (perPeerQuota session.limits).period (metered.gates index).used metered.clock
  | _ => True

instance (metered : Metered) : ∀ action, Decidable (metered.StartsCharged action)
  | .start index =>
      inferInstanceAs (Decidable (∀ session ∈ metered.daemon.sessions[index]?,
        fullAt (perPeerQuota session.limits).period (metered.callTimes session.peer.pubkey)
            metered.clock ≤
          fullAt (perPeerQuota session.limits).period (metered.gates index).used metered.clock))
  | .wait _ => .isTrue trivial
  | .permit _ => .isTrue trivial
  | .enter _ => .isTrue trivial
  | .daemon _ => .isTrue trivial

/-! ## What one step does -/

/-- The steps of the metered daemon, with what each finds. -/
inductive Step (metered : Metered) : MeteredAction → Metered → Prop
  | waited (duration : Nat) :
      Step metered (.wait duration) { metered with clock := metered.clock + duration }
  | permitted {index : Nat} {session : Session}
      (closed : (metered.gates index).phase = .closed)
      (at_index : metered.daemon.sessions[index]? = some session)
      (is_ready : limiter.ready (perPeerQuota session.limits) (metered.gates index).used
        metered.clock = true) :
      Step metered (.permit index)
        (metered.setGate index { metered.gates index with phase := .permitted metered.clock })
  | admitted {index permit : Nat} (permitted : (metered.gates index).phase = .permitted permit) :
      Step metered (.enter index)
        { metered.setGate index { metered.gates index with phase := .admitted permit } with
          admissions := metered.admissions ++ [metered.clock] }
  | started {index permit : Nat} {session : Session} {daemon : Daemon}
      (admitted : (metered.gates index).phase = .admitted permit)
      (at_index : metered.daemon.sessions[index]? = some session)
      (moved : metered.daemon.step strip reader (.session index .senderSend) = some daemon) :
      Step metered (.start index)
        { metered.setGate index
            { used := (metered.gates index).used ++ [permit], phase := .closed } with
          daemon
          calls := metered.calls ++
            [{ session := index, pubkey := session.peer.pubkey, instant := metered.clock }] }
  | moved {action : DaemonAction} {daemon : Daemon}
      (moved : metered.daemon.step strip reader action = some daemon) :
      Step metered (.daemon action) { metered with daemon }

variable {strip : List UInt8 → List UInt8} {reader : JsonReader} {limiter : RateLimiter}

theorem step_cases {metered next : Metered} {action : MeteredAction}
    (stepped : metered.step strip reader limiter action = some next) :
    Step strip reader limiter metered action next := by
  cases action with
  | wait duration =>
      obtain rfl := Option.some.inj stepped
      exact .waited duration
  | permit index =>
      simp only [step, permit] at stepped
      split at stepped
      · rename_i closed
        obtain ⟨session, at_index, stepped⟩ := Option.bind_eq_some_iff.mp stepped
        split at stepped
        · rename_i free
          obtain rfl := Option.some.inj stepped
          exact .permitted closed at_index free.2
        · cases stepped
      · cases stepped
  | enter index =>
      simp only [step, enter] at stepped
      split at stepped
      · rename_i permitted
        split at stepped
        · obtain rfl := Option.some.inj stepped
          exact .admitted permitted
        · cases stepped
      · cases stepped
  | start index =>
      simp only [step, start] at stepped
      split at stepped
      · rename_i admitted
        obtain ⟨session, at_index, stepped⟩ := Option.bind_eq_some_iff.mp stepped
        obtain ⟨daemon, moved, rfl⟩ := Option.map_eq_some_iff.mp stepped
        exact .started admitted at_index moved
      · cases stepped
  | daemon action =>
      simp only [step] at stepped
      split at stepped
      · obtain ⟨daemon, moved, rfl⟩ := Option.map_eq_some_iff.mp stepped
        exact .moved moved
      · cases stepped

/-- A step of the metered daemon is a step of the daemon, or leaves the daemon as it is. -/
theorem Step.daemon {metered next : Metered} {action : MeteredAction}
    (stepped : Step strip reader limiter metered action next) :
    next.daemon = metered.daemon ∨
      ∃ daemon_action, metered.daemon.step strip reader daemon_action = some next.daemon := by
  cases stepped with
  | started admitted at_index moved => exact .inr ⟨_, moved⟩
  | moved moved => exact .inr ⟨_, moved⟩
  | _ => exact .inl rfl

/-- A run of the metered daemon is a run of the daemon. -/
theorem daemon_of_run {start final : Metered} {schedule : List MeteredAction}
    (ran : run (step strip reader limiter) start schedule = some final) :
    ∃ daemon_schedule,
      run (Daemon.step strip reader) start.daemon daemon_schedule = some final.daemon := by
  induction schedule generalizing start with
  | nil =>
      obtain rfl := Option.some.inj ran
      exact ⟨[], rfl⟩
  | cons action schedule ih =>
      obtain ⟨next, stepped, rest⟩ := run_cons_eq_some.mp ran
      obtain ⟨daemon_schedule, daemon_ran⟩ := ih rest
      rcases (step_cases stepped).daemon with same | ⟨daemon_action, moved⟩
      · exact ⟨daemon_schedule, by rw [← same]; exact daemon_ran⟩
      · exact ⟨daemon_action :: daemon_schedule, run_cons_eq_some.mpr ⟨_, moved, daemon_ran⟩⟩

/-! ## What a run keeps -/

/-- All sessions run with the limits of the daemon, each limiter gave away the permits it is said to
have given away, and nothing is later than now. -/
structure Governed (limiter : RateLimiter) (limits : LimitsConfig) (metered : Metered) : Prop where
  daemon : metered.daemon.limits = limits
  sessions : ∀ session ∈ metered.daemon.sessions, session.limits = metered.daemon.limits
  gates : ∀ index, Granted (limiter.ready (perPeerQuota limits)) (metered.gates index).grants ∧
    ∀ grant ∈ (metered.gates index).grants, grant ≤ metered.clock
  calls : ∀ call ∈ metered.calls, call.instant ≤ metered.clock

variable {limits : LimitsConfig} {chunking : ChunkingConfig} {whitelist : Whitelist}

theorem governed_new : Governed limiter limits (new limits chunking whitelist) where
  daemon := rfl
  sessions := by simp [new, Daemon.new]
  gates index := ⟨.nil, by simp [new, Gate.new, Gate.grants, GatePhase.pending]⟩
  calls := by simp [new]

/-- The limiters stay governed when one of them is replaced by one that is. -/
theorem Governed.update {metered : Metered} (governed : Governed limiter limits metered)
    (index : Nat) {gate : Gate} {clock : Nat} (passed : metered.clock ≤ clock)
    (granted : Granted (limiter.ready (perPeerQuota limits)) gate.grants)
    (latest : ∀ grant ∈ gate.grants, grant ≤ clock) (other : Nat) :
    Granted (limiter.ready (perPeerQuota limits))
        (Function.update metered.gates index gate other).grants ∧
      ∀ grant ∈ (Function.update metered.gates index gate other).grants, grant ≤ clock := by
  by_cases same : other = index
  · subst same
    rw [Function.update_self]
    exact ⟨granted, latest⟩
  · rw [Function.update_of_ne same]
    obtain ⟨granted, latest⟩ := governed.gates other
    exact ⟨granted, fun grant member => (latest grant member).trans passed⟩

theorem Governed.step {metered next : Metered} {action : MeteredAction}
    (governed : Governed limiter limits metered)
    (stepped : Step strip reader limiter metered action next) : Governed limiter limits next := by
  have moves : ∀ {action daemon}, metered.daemon.step strip reader action = some daemon →
      daemon.limits = limits ∧ ∀ session ∈ daemon.sessions, session.limits = daemon.limits := by
    intro action daemon moved
    have kind := Daemon.daemonStep_of_step moved
    exact ⟨(Daemon.limits_of_step kind).trans governed.daemon,
      Daemon.sessions_limits_of_step governed.sessions kind⟩
  cases stepped with
  | waited duration =>
      refine ⟨governed.daemon, governed.sessions, fun index => ?_, fun call member =>
        (governed.calls call member).trans (Nat.le_add_right _ _)⟩
      obtain ⟨granted, latest⟩ := governed.gates index
      exact ⟨granted, fun grant member => (latest grant member).trans (Nat.le_add_right _ _)⟩
  | @permitted index session closed at_index is_ready =>
      obtain ⟨granted, latest⟩ := governed.gates index
      have used_eq : (metered.gates index).grants = (metered.gates index).used := by
        rw [Gate.grants, closed]
        exact List.append_nil _
      rw [used_eq] at granted latest
      rw [(governed.sessions session (List.mem_of_getElem? at_index)).trans governed.daemon]
        at is_ready
      refine ⟨governed.daemon, governed.sessions, governed.update index le_rfl
        (granted.concat latest is_ready) fun grant member => ?_, governed.calls⟩
      rcases List.mem_append.mp member with before | here
      · exact latest grant before
      · exact (List.mem_singleton.mp here).le
  | @admitted index permit permitted =>
      obtain ⟨granted, latest⟩ := governed.gates index
      rw [Gate.grants, permitted] at granted latest
      exact ⟨governed.daemon, governed.sessions, governed.update index le_rfl granted latest,
        governed.calls⟩
  | @started index permit session daemon admitted at_index moved =>
      obtain ⟨granted, latest⟩ := governed.gates index
      rw [Gate.grants, admitted] at granted latest
      obtain ⟨same_daemon, same_sessions⟩ := moves moved
      refine ⟨same_daemon, same_sessions, governed.update index le_rfl ?_ ?_, ?_⟩
      · rw [Gate.grants]
        exact (List.append_nil _).symm ▸ granted
      · rw [Gate.grants]
        exact (List.append_nil _).symm ▸ latest
      · intro call member
        rcases List.mem_append.mp member with before | here
        · exact governed.calls call before
        · rw [List.mem_singleton.mp here]
          exact Nat.le_refl metered.clock
  | moved moved =>
      obtain ⟨same_daemon, same_sessions⟩ := moves moved
      exact ⟨same_daemon, same_sessions, governed.gates, governed.calls⟩

/-! ## The rate for each peer -/

/-- The calls for each peer keep the pace of the configured quota. -/
def PeersPaced (limits : LimitsConfig) (metered : Metered) : Prop :=
  ∀ pubkey,
    Paced (perPeerQuota limits).burst (perPeerQuota limits).period (metered.callTimes pubkey)

theorem callTimes_concat {metered next : Metered} {call : Call}
    (called : next.calls = metered.calls ++ [call]) (pubkey : Text) :
    next.callTimes pubkey =
      if call.pubkey = pubkey then metered.callTimes pubkey ++ [call.instant]
      else metered.callTimes pubkey := by
  rw [callTimes, callTimes, called, List.filter_append, List.filter_singleton]
  split
  · rename_i same
    simp [same]
  · rename_i other
    simp [other]

theorem PeersPaced.step {metered next : Metered} {action : MeteredAction}
    (paced : metered.PeersPaced limits) (governed : Governed limiter limits metered)
    (charged : metered.StartsCharged action)
    (stepped : Step strip reader limiter metered action next) : next.PeersPaced limits := by
  cases stepped with
  | @started index permit session daemon admitted at_index moved =>
      intro pubkey
      rw [callTimes_concat rfl]
      split
      · rename_i same_peer
        have same_peer : session.peer.pubkey = pubkey := same_peer
        obtain ⟨granted, latest⟩ := governed.gates index
        rw [Gate.grants, admitted] at granted latest
        have not_fuller := charged session at_index
        rw [(governed.sessions session (List.mem_of_getElem? at_index)).trans governed.daemon,
          same_peer] at not_fuller
        exact (paced pubkey).concat_of_fullAt_le (perPeerQuota limits).burst_pos
          (perPeerQuota limits).period_pos (limiter.paced _ _ granted) granted.latest_of_concat
          (latest permit (by simp [GatePhase.pending])) not_fuller
      · exact paced pubkey
  | _ => exact paced

/-- When every call starts while the session's limiter is charged with the calls before it, a window
holds at most a burst of calls for a peer and one more for each period. -/
theorem peer_calls_paced {metered : Metered} {schedule : List MeteredAction}
    (ran : run (step strip reader limiter) (new limits chunking whitelist) schedule = some metered)
    (charged : AllSteps (step strip reader limiter) StartsCharged (new limits chunking whitelist)
      schedule) (pubkey : Text) (first length : Nat) :
    countIn (metered.callTimes pubkey) first (first + length) ≤
      max limits.perPeerBurst 1 + length / max limits.perPeerPeriod minPeriod := by
  have kept : Governed limiter limits metered ∧ metered.PeersPaced limits := by
    apply @invariant_of_steps Metered MeteredAction (Metered.step strip reader limiter)
      (new limits chunking whitelist) metered
      (fun metered => Governed limiter limits metered ∧ metered.PeersPaced limits) StartsCharged
      _ schedule ran charged ⟨governed_new, fun _ => Paced.nil _ _⟩
    intro state action next ⟨governed, paced⟩ charged stepped
    have kind := step_cases stepped
    exact ⟨governed.step kind, paced.step governed charged kind⟩
  have window := kept.2 pubkey first length
  rwa [perPeerQuota, clampedQuota_burst, clampedQuota_period] at window

theorem governed_of_run {metered : Metered} {schedule : List MeteredAction}
    (ran : run (step strip reader limiter) (new limits chunking whitelist) schedule = some metered) :
    Governed limiter limits metered :=
  invariant_of_run (fun _ _ _ governed stepped => Governed.step governed (step_cases stepped)) ran
    governed_new

theorem callTimes_le {metered : Metered} (governed : Governed limiter limits metered)
    (pubkey : Text) : ∀ time ∈ metered.callTimes pubkey, time ≤ metered.clock := by
  intro time member
  obtain ⟨call, call_member, rfl⟩ := List.mem_map.mp member
  exact governed.calls call (List.mem_filter.mp call_member).1

/-- After a call that starts with a fuller limiter, the session's limiter can give away permits at
instants at which the calls for the peer break the pace. -/
theorem uncharged_start_outpaces {metered next : Metered} {schedule : List MeteredAction}
    (ran : run (step strip reader bucket) (new limits chunking whitelist) schedule = some metered)
    {index : Nat} (stepped : metered.step strip reader bucket (.start index) = some next)
    (uncharged : ¬ metered.StartsCharged (.start index)) :
    ∃ pubkey extra, (next.clock :: extra).Pairwise (· ≤ ·) ∧
      Granted (bucketReady (perPeerQuota limits)) ((next.gates index).grants ++ extra) ∧
        ¬ Paced (perPeerQuota limits).burst (perPeerQuota limits).period
          (next.callTimes pubkey ++ extra) := by
  have governed := governed_of_run ran
  cases step_cases stepped with
  | @started _ permit session daemon admitted at_index moved =>
      obtain ⟨granted, latest⟩ := governed.gates index
      rw [Gate.grants, admitted] at granted latest
      have same_limits : session.limits = limits :=
        (governed.sessions session (List.mem_of_getElem? at_index)).trans governed.daemon
      have fuller : fullAt (perPeerQuota limits).period (metered.gates index).used metered.clock <
          fullAt (perPeerQuota limits).period (metered.callTimes session.peer.pubkey)
            metered.clock := by
        by_contra not_fuller
        apply uncharged
        intro other other_at
        obtain rfl : session = other := by simpa [at_index] using other_at
        rw [same_limits]
        exact Nat.le_of_not_lt not_fuller
      have still_fuller := fullAt_concat_lt granted.latest_of_concat
        (callTimes_le governed session.peer.pubkey) (latest permit (by simp [GatePhase.pending]))
        fuller
      have latest_calls : ∀ time ∈ metered.callTimes session.peer.pubkey ++ [metered.clock],
          time ≤ metered.clock := latest_replicate (callTimes_le governed session.peer.pubkey) 1
      obtain ⟨extra, ordered, paced, broken⟩ := exists_outpacing (perPeerQuota limits).burst_pos
        (perPeerQuota limits).period_pos latest latest_calls (bucket.paced _ _ granted) still_fuller
      refine ⟨session.peer.pubkey, extra, ordered, ?_, ?_⟩
      · obtain ⟨after_now, ordered_extra⟩ := List.pairwise_cons.mp ordered
        have ordered_all := List.pairwise_append.mpr ⟨granted.pairwise, ordered_extra,
          fun grant member time later => (latest grant member).trans (after_now time later)⟩
        have granted_all := granted_append_of_paced granted ordered_all paced
        simpa [setGate, Gate.grants, GatePhase.pending] using granted_all
      · rw [callTimes_concat rfl, if_pos rfl]
        exact broken

/-- A session of the sample peer: it passes a line on, its shell exits, and its farewell is sent. -/
def sampleSession (index instant : Nat) : List MeteredAction :=
  let act (action : SessionAction) : MeteredAction := .daemon (.session index action)
  let poll := act (.actor (.plain instant 0))
  [.daemon Daemon.sampleFrame, .daemon (.send 0), poll, poll, poll, poll,
    act (.pty .childExit), act (.pty .readerEnds), poll, poll, poll, poll,
    act .senderReceive, .permit index, .enter index, .start index, act .senderReceive, poll, poll]

/-- Two sessions of a peer, the second when the call of the first has been refilled. -/
theorem peer_calls_paced_sample :
    ∃ metered,
      run (step id Daemon.sampleReader bucket) (new .default .default Daemon.sampleWhitelist)
        (sampleSession 0 0 ++ .wait (fromSecs 4) :: sampleSession 1 (fromSecs 4)) = some metered ∧
      countIn (metered.callTimes Daemon.sampleKey) 0 (0 + fromSecs 4) ≤
        max LimitsConfig.default.perPeerBurst 1 +
          fromSecs 4 / max LimitsConfig.default.perPeerPeriod minPeriod := by
  have completes : (run (step id Daemon.sampleReader bucket)
      (new .default .default Daemon.sampleWhitelist)
      (sampleSession 0 0 ++ .wait (fromSecs 4) :: sampleSession 1 (fromSecs 4))).isSome = true := by
    decide +kernel
  obtain ⟨metered, ran⟩ := Option.isSome_iff_exists.mp completes
  exact ⟨metered, ran, peer_calls_paced ran (by decide +kernel) Daemon.sampleKey 0 (fromSecs 4)⟩

/-- Three sessions of a peer within two seconds: each sends its farewell with a limiter of its own,
which is three calls where the quota allows two. -/
theorem sessions_outpace_quota :
    ¬ ∀ strip reader limiter limits chunking whitelist schedule metered,
      run (step strip reader limiter) (new limits chunking whitelist) schedule = some metered →
        ∀ pubkey first length, countIn (metered.callTimes pubkey) first (first + length) ≤
          max limits.perPeerBurst 1 + length / max limits.perPeerPeriod minPeriod := by
  intro paced
  have outcome : (run (step id Daemon.sampleReader bucket)
      (new .default .default Daemon.sampleWhitelist)
      (sampleSession 0 0 ++ .wait (fromSecs 1) :: sampleSession 1 (fromSecs 1) ++
        .wait (fromSecs 1) :: sampleSession 2 (fromSecs 2))).map
          (fun metered => metered.callTimes Daemon.sampleKey) =
      some [0, fromSecs 1, fromSecs 2] := by decide +kernel
  obtain ⟨metered, ran, times_eq⟩ := Option.map_eq_some_iff.mp outcome
  have window := paced id Daemon.sampleReader bucket .default .default Daemon.sampleWhitelist _
    metered ran Daemon.sampleKey 0 (fromSecs 2)
  rw [times_eq] at window
  exact absurd window (by decide)

end Metered

end Loraterm
