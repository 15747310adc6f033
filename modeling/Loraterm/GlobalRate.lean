import Loraterm.SendRate

/-!
# The rate of all sends

The limiter that all sessions share bounds the calls of `send_dm` of the whole daemon, over any
number of peers and sessions: since the start there were at most a burst of them and one for each
period.  In any stretch of a run there are at most that many and one for each sender task that had
been let through before.
-/

namespace Loraterm

open Utf8Text Mpsc Execution Pacing

/-- The permits of the shared limiter that a sender task holds. -/
def GatePhase.admissions : GatePhase → Nat
  | .admitted _ => 1
  | _ => 0

namespace Metered

/-- How many sender tasks were let through and have not called yet. -/
def admitted (metered : Metered) : Nat :=
  ∑ index ∈ Finset.range metered.daemon.sessions.length, (metered.gates index).phase.admissions

variable {strip : List UInt8 → List UInt8} {reader : JsonReader} {limiter : RateLimiter}
  {limits : LimitsConfig} {chunking : ChunkingConfig} {whitelist : Whitelist}
  {metered next : Metered} {action : MeteredAction}

/-! ## The books of the shared limiter -/

/-- A sender task that moves on changes the count by its own permits. -/
theorem admitted_setGate {index : Nat} (inside : index < metered.daemon.sessions.length) (gate : Gate) :
    (metered.setGate index gate).admitted + (metered.gates index).phase.admissions =
      metered.admitted + gate.phase.admissions := by
  have member : index ∈ Finset.range metered.daemon.sessions.length := Finset.mem_range.mpr inside
  have updated : ∀ other, (Function.update metered.gates index gate other).phase.admissions =
      Function.update (fun other => (metered.gates other).phase.admissions) index
        gate.phase.admissions other := by
    intro other
    by_cases same : other = index
    · subst same
      rw [Function.update_self, Function.update_self]
    · rw [Function.update_of_ne same, Function.update_of_ne same]
  have after : (metered.setGate index gate).admitted = gate.phase.admissions +
      ∑ other ∈ Finset.range metered.daemon.sessions.length \ {index},
        (metered.gates other).phase.admissions := by
    rw [admitted, setGate, Finset.sum_congr rfl fun other _ => updated other,
      Finset.sum_update_of_mem member]
  have before : metered.admitted = (metered.gates index).phase.admissions +
      ∑ other ∈ Finset.range metered.daemon.sessions.length \ {index},
        (metered.gates other).phase.admissions :=
    Finset.sum_eq_add_sum_sdiff_singleton_of_mem member _
  omega

/-- What the shared limiter gave away was used for a call, or a sender task holds it. -/
structure Charged (limiter : RateLimiter) (limits : LimitsConfig) (metered : Metered) : Prop where
  daemon : metered.daemon.limits = limits
  granted : Granted (limiter.ready (globalQuota limits)) metered.admissions
  latest : ∀ admission ∈ metered.admissions, admission ≤ metered.clock
  balance : metered.admissions.length = metered.calls.length + metered.admitted
  closed : ∀ index, metered.daemon.sessions.length ≤ index → (metered.gates index).phase = .closed

theorem charged_new : Charged limiter limits (new limits chunking whitelist) where
  daemon := rfl
  granted := .nil
  latest := by simp [new]
  balance := rfl
  closed _ _ := rfl

theorem Charged.inside (charged : Charged limiter limits metered) {index : Nat}
    (open_gate : (metered.gates index).phase ≠ .closed) :
    index < metered.daemon.sessions.length := by
  by_contra outside
  exact open_gate (charged.closed index (Nat.le_of_not_lt outside))

/-- A gate that changes belongs to a session. -/
theorem Charged.setGate (charged : Charged limiter limits metered) {index : Nat}
    (inside : index < metered.daemon.sessions.length) (gate : Gate) :
    ∀ other, metered.daemon.sessions.length ≤ other →
      ((metered.setGate index gate).gates other).phase = .closed := by
  intro other outside
  have distinct : other ≠ index := by omega
  have kept : Function.update metered.gates index gate other = metered.gates other :=
    Function.update_of_ne distinct _ _
  exact (congrArg Gate.phase kept).trans (charged.closed other outside)

/-- Sessions that were just spawned hold no permit. -/
theorem admitted_of_daemon (metered : Metered)
    (closed : ∀ index, metered.daemon.sessions.length ≤ index →
      (metered.gates index).phase = .closed) {daemon : Daemon}
    (longer : metered.daemon.sessions.length ≤ daemon.sessions.length) :
    admitted { metered with daemon } = metered.admitted := by
  rw [admitted, admitted]
  refine (Finset.sum_subset (Finset.range_subset_range.mpr longer) fun index _ outside => ?_).symm
  rw [closed index (by simpa using outside)]
  rfl

theorem ready_of_enter {index : Nat} (stepped : metered.enter limiter index = some next) :
    limiter.ready (globalQuota metered.daemon.limits) metered.admissions metered.clock = true := by
  simp only [enter] at stepped
  split at stepped
  · split at stepped
    · assumption
    · cases stepped
  · cases stepped

theorem Charged.step (charged : Charged limiter limits metered)
    (stepped : metered.step strip reader limiter action = some next) : Charged limiter limits next := by
  cases step_cases stepped with
  | waited duration =>
      exact { charged with
        latest := fun admission member =>
          (charged.latest admission member).trans (Nat.le_add_right _ _) }
  | @permitted index session closed at_index is_ready =>
      have inside := (List.getElem?_eq_some_iff.mp at_index).1
      have balance := admitted_setGate inside
        { metered.gates index with phase := .permitted metered.clock }
      simp only [closed, GatePhase.admissions, Nat.add_zero] at balance
      exact { charged with
        balance := charged.balance.trans (congrArg _ balance.symm)
        closed := charged.setGate inside _ }
  | @admitted index permit permitted =>
      have inside := charged.inside (by simp [permitted] : (metered.gates index).phase ≠ .closed)
      have balance := admitted_setGate inside
        { metered.gates index with phase := .admitted permit }
      simp only [permitted, GatePhase.admissions, Nat.add_zero] at balance
      have is_ready := ready_of_enter stepped
      rw [charged.daemon] at is_ready
      refine { charged with
        granted := charged.granted.concat charged.latest is_ready
        latest := ?_
        balance := ?_
        closed := charged.setGate inside _ }
      · intro admission member
        rcases List.mem_append.mp member with before | here
        · exact charged.latest admission before
        · exact (List.mem_singleton.mp here).le
      · calc
          (metered.admissions ++ [metered.clock]).length = metered.admissions.length + 1 := by simp
          _ = metered.calls.length + (metered.admitted + 1) := by rw [charged.balance, Nat.add_assoc]
          _ = metered.calls.length + _ := by rw [← balance]; rfl
  | @started index permit session daemon entered at_index moved =>
      have inside := (List.getElem?_eq_some_iff.mp at_index).1
      have kind := Daemon.daemonStep_of_step moved
      have longer := Daemon.length_le_of_step kind
      have balance := admitted_setGate inside
        { used := (metered.gates index).used ++ [permit], phase := .closed }
      simp only [entered, GatePhase.admissions, Nat.add_zero] at balance
      have closed := charged.setGate inside
        { used := (metered.gates index).used ++ [permit], phase := .closed }
      have same := admitted_of_daemon (metered.setGate index
        { used := (metered.gates index).used ++ [permit], phase := .closed }) closed longer
      refine { charged with
        daemon := (Daemon.limits_of_step kind).trans charged.daemon
        balance := ?_
        closed := fun other outside => closed other (longer.trans outside) }
      calc
        metered.admissions.length = metered.calls.length + metered.admitted := charged.balance
        _ = metered.calls.length + 1 + (metered.setGate index
              { used := (metered.gates index).used ++ [permit], phase := .closed }).admitted := by
            omega
        _ = _ := by
            rw [← same, List.length_append]
            rfl
  | @moved action daemon moved =>
      have kind := Daemon.daemonStep_of_step moved
      have longer := Daemon.length_le_of_step kind
      exact { charged with
        daemon := (Daemon.limits_of_step kind).trans charged.daemon
        balance := by rw [admitted_of_daemon metered charged.closed longer]; exact charged.balance
        closed := fun index outside => charged.closed index (longer.trans outside) }

/-! ## A stretch of a run -/

/-- Since an earlier state time has passed, and the shared limiter gave permits away in it. -/
def Since (earlier later : Metered) : Prop :=
  earlier.clock ≤ later.clock ∧
    ∃ extra, later.admissions = earlier.admissions ++ extra ∧
      ∀ admission ∈ extra, earlier.clock ≤ admission

theorem since_of_run {earlier later : Metered} {schedule : List MeteredAction}
    (ran : run (step strip reader limiter) earlier schedule = some later) :
    earlier.Since later := by
  refine @invariant_of_run _ _ _ _ _ (fun metered => earlier.Since metered) ?_ _ ran
    ⟨le_rfl, [], (List.append_nil _).symm, by simp⟩
  rintro metered action next ⟨passed, extra, extra_eq, after⟩ stepped
  cases step_cases stepped with
  | waited duration => exact ⟨passed.trans (Nat.le_add_right _ _), extra, extra_eq, after⟩
  | permitted closed at_index is_ready => exact ⟨passed, extra, extra_eq, after⟩
  | admitted permitted =>
      refine ⟨passed, extra ++ [metered.clock], ?_, ?_⟩
      · rw [← List.append_assoc, ← extra_eq]
      · intro admission member
        rcases List.mem_append.mp member with before | here
        · exact after admission before
        · exact passed.trans (List.mem_singleton.mp here).ge
  | started admitted at_index moved => exact ⟨passed, extra, extra_eq, after⟩
  | moved moved => exact ⟨passed, extra, extra_eq, after⟩

theorem charged_of_run {schedule : List MeteredAction}
    (ran : run (step strip reader limiter) (new limits chunking whitelist) schedule = some metered) :
    Charged limiter limits metered :=
  invariant_of_run (fun _ _ _ charged stepped => Charged.step charged stepped) ran charged_new

/-- What the shared limiter gives away in a stretch of time is a burst at most, and one permit for
each period. -/
theorem length_extra_le {extra : List Nat} {first last : Nat} (order : first ≤ last)
    (paced : Paced (globalQuota limits).burst (globalQuota limits).period (metered.admissions ++ extra))
    (inside : ∀ admission ∈ extra, first ≤ admission ∧ admission ≤ last) :
    extra.length ≤ max limits.globalBurst 1 +
      (last - first) / max limits.globalPeriod minPeriod := by
  have window := paced first (last - first)
  rw [Nat.add_sub_cancel' order, countIn_append, globalQuota, clampedQuota_burst,
    clampedQuota_period] at window
  have all : countIn extra first last = extra.length := by
    rw [countIn, List.countP_eq_length]
    exact fun admission member => decide_eq_true (inside admission member)
  omega

/-- In any stretch of a run, the sessions of all peers together start no more calls of `send_dm` than
the shared quota grants in that time, and one for each sender task let through before. -/
theorem all_calls_paced {before after : List MeteredAction} {earlier later : Metered}
    (ran : run (step strip reader limiter) (new limits chunking whitelist) before = some earlier)
    (went_on : run (step strip reader limiter) earlier after = some later) :
    later.calls.length ≤ earlier.calls.length + earlier.admitted +
      (max limits.globalBurst 1 +
        (later.clock - earlier.clock) / max limits.globalPeriod minPeriod) := by
  have charged := charged_of_run ran
  have charged_later := charged_of_run (run_append_eq_some.mpr ⟨earlier, ran, went_on⟩)
  obtain ⟨passed, extra, extra_eq, since⟩ := since_of_run went_on
  have paced := limiter.paced _ _ charged_later.granted
  rw [extra_eq] at paced
  have few : extra.length ≤ max limits.globalBurst 1 +
      (later.clock - earlier.clock) / max limits.globalPeriod minPeriod := by
    refine length_extra_le passed paced fun admission member => ⟨since admission member, ?_⟩
    exact charged_later.latest admission (extra_eq ▸ List.mem_append_right _ member)
  have counted : earlier.admissions.length + extra.length = later.calls.length + later.admitted := by
    rw [← charged_later.balance, extra_eq, List.length_append]
  have balance := charged.balance
  omega

/-- Two sessions of a peer call once each, within the global burst. -/
theorem all_calls_paced_sample :
    ∃ earlier later,
      run (step id Daemon.sampleReader bucket) (new .default .default Daemon.sampleWhitelist)
          (sampleSession 0 0) = some earlier ∧
        run (step id Daemon.sampleReader bucket) earlier
            (.wait (fromSecs 4) :: sampleSession 1 (fromSecs 4)) = some later ∧
          earlier.calls.length < later.calls.length ∧
            later.calls.length ≤ earlier.calls.length + earlier.admitted +
              (max LimitsConfig.default.globalBurst 1 + (later.clock - earlier.clock) /
                max LimitsConfig.default.globalPeriod minPeriod) := by
  have completes : (run (step id Daemon.sampleReader bucket)
      (new .default .default Daemon.sampleWhitelist) (sampleSession 0 0)).bind
        (fun earlier => (run (step id Daemon.sampleReader bucket) earlier
          (.wait (fromSecs 4) :: sampleSession 1 (fromSecs 4))).map
            fun later => decide (earlier.calls.length < later.calls.length)) = some true := by
    decide +kernel
  obtain ⟨earlier, ran, completes⟩ := Option.bind_eq_some_iff.mp completes
  obtain ⟨later, went_on, more⟩ := Option.map_eq_some_iff.mp completes
  exact ⟨earlier, later, ran, went_on, of_decide_eq_true more, all_calls_paced ran went_on⟩

end Metered

end Loraterm
