import Mathlib

/-!
# Pacing

A list of instants keeps a pace when every closed window holds at most a burst of them and one more
for each full period of its length.  The same is said by a bucket that holds a burst of permits,
loses one at each instant and regains one each period: the next instant keeps the pace exactly when
the bucket has a permit left.
-/

namespace Pacing

/-- How many instants lie in a closed window. -/
def countIn (times : List ℕ) (first last : ℕ) : ℕ :=
  times.countP fun time => decide (first ≤ time ∧ time ≤ last)

/-- How many instants come at or after one. -/
def countFrom (times : List ℕ) (first : ℕ) : ℕ := times.countP fun time => decide (first ≤ time)

/-- Every window holds at most a burst, and one instant per period. -/
def Paced (burst period : ℕ) (times : List ℕ) : Prop :=
  ∀ first length, countIn times first (first + length) ≤ burst + length / period

/-- Since each instant there was one period for it and for each later one: the bucket is full. -/
def Refilled (period : ℕ) (times : List ℕ) (now : ℕ) : Prop :=
  ∀ time ∈ times, time + countFrom times time * period ≤ now

/-- When the bucket is full again, or now if it is full. -/
def fullAt (period : ℕ) (times : List ℕ) (now : ℕ) : ℕ :=
  (times.map fun time => time + countFrom times time * period).foldr max now

variable {burst period first last now : ℕ} {times : List ℕ}

/-! ## Counting -/

theorem countIn_append (earlier later : List ℕ) (first last : ℕ) :
    countIn (earlier ++ later) first last = countIn earlier first last + countIn later first last :=
  List.countP_append

theorem countIn_singleton (first last : ℕ) :
    countIn [now] first last = if first ≤ now ∧ now ≤ last then 1 else 0 := by
  simp [countIn, List.countP_cons]

theorem countIn_le_countFrom (times : List ℕ) (first last : ℕ) :
    countIn times first last ≤ countFrom times first := by
  apply List.countP_mono_left
  intro time _ inside
  exact decide_eq_true (of_decide_eq_true inside).1

/-- A window up to now holds all that comes after its start. -/
theorem countIn_eq_countFrom (latest : ∀ time ∈ times, time ≤ now) (first : ℕ) :
    countIn times first now = countFrom times first := by
  apply List.countP_congr
  intro time member
  simp [latest time member]

theorem countFrom_concat (past : first ≤ now) :
    countFrom (times ++ [now]) first = countFrom times first + 1 := by
  simp [countFrom, List.countP_append, past]

theorem countFrom_pos_iff : 0 < countFrom times first ↔ ∃ time ∈ times, first ≤ time := by
  simp [countFrom, List.countP_pos_iff]

/-- What comes at or after a bound has an earliest instant. -/
theorem exists_earliest (after : ∃ time ∈ times, first ≤ time) :
    ∃ earliest ∈ times, first ≤ earliest ∧ countFrom times first ≤ countFrom times earliest := by
  classical
  have found : ∃ time, time ∈ times ∧ first ≤ time := after
  obtain ⟨member, beyond⟩ := Nat.find_spec found
  refine ⟨Nat.find found, member, beyond, ?_⟩
  apply List.countP_mono_left
  intro time time_member time_beyond
  exact decide_eq_true (Nat.find_min' found ⟨time_member, of_decide_eq_true time_beyond⟩)

/-! ## Buckets -/

/-- The periods a bucket needed to refill fit in between a bound and the refill. -/
theorem Refilled.countFrom_mul_le (refilled : Refilled period times now)
    (some_after : 0 < countFrom times first) : first + countFrom times first * period ≤ now := by
  obtain ⟨earliest, member, beyond, counted⟩ := exists_earliest (countFrom_pos_iff.mp some_after)
  calc
    first + countFrom times first * period ≤ earliest + countFrom times earliest * period := by gcongr
    _ ≤ now := refilled earliest member

theorem foldr_max_le_iff (bound : ℕ) :
    times.foldr max now ≤ bound ↔ now ≤ bound ∧ ∀ time ∈ times, time ≤ bound := by
  induction times with
  | nil => simp
  | cons time times ih => simp [ih, and_left_comm]

theorem fullAt_le_iff (bound : ℕ) :
    fullAt period times now ≤ bound ↔ now ≤ bound ∧ Refilled period times bound := by
  rw [fullAt, foldr_max_le_iff, List.forall_mem_map]
  rfl

theorem le_fullAt (period : ℕ) (times : List ℕ) (now : ℕ) : now ≤ fullAt period times now :=
  ((fullAt_le_iff _).mp le_rfl).1

theorem refilled_fullAt (period : ℕ) (times : List ℕ) (now : ℕ) :
    Refilled period times (fullAt period times now) :=
  ((fullAt_le_iff _).mp le_rfl).2

/-- A full bucket stays full. -/
theorem fullAt_of_le {later : ℕ} (passed : now ≤ later) :
    fullAt period times later = max later (fullAt period times now) := by
  apply eq_of_forall_ge_iff
  intro bound
  rw [max_le_iff, fullAt_le_iff, fullAt_le_iff]
  constructor
  · rintro ⟨bounded, refilled⟩
    exact ⟨bounded, passed.trans bounded, refilled⟩
  · rintro ⟨bounded, -, refilled⟩
    exact ⟨bounded, refilled⟩

theorem latest_replicate (latest : ∀ time ∈ times, time ≤ now) (count : ℕ) :
    ∀ time ∈ times ++ List.replicate count now, time ≤ now := by
  intro time member
  rcases List.mem_append.mp member with before | here
  · exact latest time before
  · exact (List.eq_of_mem_replicate here).le

/-- A permit given away now puts the bucket back by one period. -/
theorem fullAt_concat (latest : ∀ time ∈ times, time ≤ now) :
    fullAt period (times ++ [now]) now = fullAt period times now + period := by
  apply le_antisymm
  · refine (fullAt_le_iff _).mpr ⟨(le_fullAt period times now).trans (Nat.le_add_right _ _), ?_⟩
    intro time member
    have past : time ≤ now := latest_replicate latest 1 time member
    rw [countFrom_concat past, Nat.add_mul, Nat.one_mul, ← Nat.add_assoc]
    apply Nat.add_le_add_right
    rcases Nat.eq_zero_or_pos (countFrom times time) with none_after | some_after
    · rw [none_after, Nat.zero_mul]
      exact past.trans (le_fullAt period times now)
    · exact (refilled_fullAt period times now).countFrom_mul_le some_after
  · have refilled := refilled_fullAt period (times ++ [now]) now
    have here := refilled now (by simp)
    rw [countFrom_concat le_rfl, Nat.add_mul, Nat.one_mul] at here
    have before : fullAt period times now ≤ fullAt period (times ++ [now]) now - period := by
      refine (fullAt_le_iff _).mpr ⟨by omega, fun time member => ?_⟩
      have spent := refilled time (List.mem_append_left _ member)
      rw [countFrom_concat (latest time member), Nat.add_mul, Nat.one_mul] at spent
      omega
    omega

theorem fullAt_replicate (latest : ∀ time ∈ times, time ≤ now) (count : ℕ) :
    fullAt period (times ++ List.replicate count now) now = fullAt period times now + count * period := by
  induction count with
  | zero => simp
  | succ count ih =>
      rw [List.replicate_succ', ← List.append_assoc, fullAt_concat (latest_replicate latest count),
        ih, Nat.add_mul, Nat.one_mul, Nat.add_assoc]

/-- A bucket that has given away less than a burst has a permit left. -/
theorem fullAt_le_of_length_lt (latest : ∀ time ∈ times, time ≤ now)
    (few : times.length < burst) : fullAt period times now ≤ now + (burst - 1) * period := by
  refine (fullAt_le_iff _).mpr ⟨Nat.le_add_right _ _, fun time member => ?_⟩
  have counted : countFrom times time ≤ times.length := List.countP_le_length
  have within_burst : countFrom times time ≤ burst - 1 := by omega
  have past := latest time member
  gcongr

/-! ## The next instant -/

theorem Paced.nil (burst period : ℕ) : Paced burst period [] := fun _ _ => Nat.zero_le _

theorem Paced.of_append {earlier later : List ℕ} (paced : Paced burst period (earlier ++ later)) :
    Paced burst period earlier := by
  intro first length
  apply le_trans _ (paced first length)
  rw [countIn_append]
  exact Nat.le_add_right _ _

/-- The bucket of a paced list never misses more than a burst. -/
theorem Paced.fullAt_le (period_pos : 0 < period) (latest : ∀ time ∈ times, time ≤ now)
    (paced : Paced burst period times) : fullAt period times now ≤ now + burst * period := by
  refine (fullAt_le_iff _).mpr ⟨Nat.le_add_right _ _, fun time member => ?_⟩
  have past := latest time member
  have window := paced time (now - time)
  rw [Nat.add_sub_cancel' past, countIn_eq_countFrom latest] at window
  have periods : countFrom times time ≤ (now - time + burst * period) / period := by
    rw [Nat.add_mul_div_right _ _ period_pos]
    omega
  have spent := (Nat.le_div_iff_mul_le period_pos).mp periods
  omega

theorem pred_mul_add (burst_pos : 0 < burst) (period : ℕ) :
    (burst - 1) * period + period = burst * period := by
  rw [← Nat.succ_mul, Nat.succ_eq_add_one, Nat.sub_add_cancel burst_pos]

/-- A bucket with a permit left can give it away. -/
theorem Paced.concat (burst_pos : 0 < burst) (period_pos : 0 < period)
    (paced : Paced burst period times)
    (left : fullAt period times now ≤ now + (burst - 1) * period) :
    Paced burst period (times ++ [now]) := by
  intro first length
  rw [countIn_append, countIn_singleton]
  by_cases inside : first ≤ now ∧ now ≤ first + length
  · rw [if_pos inside]
    have counted := countIn_le_countFrom times first (first + length)
    rcases Nat.eq_zero_or_pos (countFrom times first) with none_before | some_before
    · have within_burst : countIn times first (first + length) + 1 ≤ burst := by omega
      exact within_burst.trans (Nat.le_add_right _ _)
    · have room := ((fullAt_le_iff _).mp left).2.countFrom_mul_le some_before
      have periods : countFrom times first ≤ burst - 1 + length / period := by
        rw [Nat.add_comm, ← Nat.add_mul_div_right length (burst - 1) period_pos,
          Nat.le_div_iff_mul_le period_pos]
        omega
      omega
  · rw [if_neg inside]
    exact paced first length

/-- The next instant keeps the pace exactly when the bucket has a permit left. -/
theorem paced_concat_iff (burst_pos : 0 < burst) (period_pos : 0 < period)
    (latest : ∀ time ∈ times, time ≤ now) :
    Paced burst period (times ++ [now]) ↔
      Paced burst period times ∧ fullAt period times now ≤ now + (burst - 1) * period := by
  constructor
  · intro paced
    have latest_all : ∀ time ∈ times ++ [now], time ≤ now := latest_replicate latest 1
    have filled := paced.fullAt_le period_pos latest_all
    rw [fullAt_concat latest, ← pred_mul_add burst_pos] at filled
    exact ⟨paced.of_append, by omega⟩
  · rintro ⟨paced, left⟩
    exact paced.concat burst_pos period_pos left

/-- An instant may wait for its permit, as long as the bucket that gave the permit away does not get
fuller than the bucket of what waited. -/
theorem Paced.concat_of_fullAt_le {used : List ℕ} {permit : ℕ} (burst_pos : 0 < burst)
    (period_pos : 0 < period) (paced : Paced burst period times)
    (permitted : Paced burst period (used ++ [permit])) (latest : ∀ time ∈ used, time ≤ permit)
    (waited : permit ≤ now) (not_fuller : fullAt period times now ≤ fullAt period used now) :
    Paced burst period (times ++ [now]) := by
  apply paced.concat burst_pos period_pos
  have left := ((paced_concat_iff burst_pos period_pos latest).mp permitted).2
  have own_eq : fullAt period used now = max now (fullAt period used permit) := fullAt_of_le waited
  rw [own_eq] at not_fuller
  omega

/-! ## A bucket that is too full -/

/-- A bucket gives away all it has left at once. -/
theorem Paced.replicate (burst_pos : 0 < burst) (period_pos : 0 < period)
    (latest : ∀ time ∈ times, time ≤ now) (paced : Paced burst period times) {count : ℕ}
    (left : fullAt period times now + count * period ≤ now + burst * period) :
    Paced burst period (times ++ List.replicate count now) := by
  induction count with
  | zero => simpa using paced
  | succ count ih =>
      rw [Nat.add_mul, Nat.one_mul] at left
      have burst_eq := pred_mul_add burst_pos period
      rw [List.replicate_succ', ← List.append_assoc]
      apply (paced_concat_iff burst_pos period_pos (latest_replicate latest count)).mpr
      refine ⟨ih (by omega), ?_⟩
      rw [fullAt_replicate latest]
      omega

/-- A bucket that is fuller than another stays so when both give a permit away, the fuller one
earlier. -/
theorem fullAt_concat_lt {used : List ℕ} {permit : ℕ} (latest_used : ∀ time ∈ used, time ≤ permit)
    (latest : ∀ time ∈ times, time ≤ now) (waited : permit ≤ now)
    (fuller : fullAt period used now < fullAt period times now) :
    fullAt period (used ++ [permit]) now < fullAt period (times ++ [now]) now := by
  have before_eq : fullAt period used now = max now (fullAt period used permit) :=
    fullAt_of_le waited
  have after_eq : fullAt period (used ++ [permit]) now =
      max now (fullAt period (used ++ [permit]) permit) := fullAt_of_le waited
  rw [fullAt_concat latest_used] at after_eq
  rw [after_eq, fullAt_concat latest]
  omega

/-- While one bucket is fuller than another, it can give permits away that the other cannot. -/
theorem exists_outpacing {used : List ℕ} (burst_pos : 0 < burst) (period_pos : 0 < period)
    (latest_used : ∀ time ∈ used, time ≤ now) (latest : ∀ time ∈ times, time ≤ now)
    (paced : Paced burst period used) (fuller : fullAt period used now < fullAt period times now) :
    ∃ extra, (now :: extra).Pairwise (· ≤ ·) ∧ Paced burst period (used ++ extra) ∧
      ¬ Paced burst period (times ++ extra) := by
  have burst_eq := pred_mul_add burst_pos period
  -- the bucket is emptied now, and gives its next permit away as soon as it can
  have emptied : ∃ count, now + (burst - 1) * period ≤ fullAt period used now + count * period := by
    refine ⟨burst, ?_⟩
    have filled := le_fullAt period used now
    omega
  obtain ⟨count, enough, left⟩ : ∃ count,
      now + (burst - 1) * period ≤ fullAt period used now + count * period ∧
        fullAt period used now + count * period ≤ now + burst * period := by
    refine ⟨Nat.find emptied, Nat.find_spec emptied, ?_⟩
    cases found : Nat.find emptied with
    | zero =>
        rw [Nat.zero_mul]
        exact paced.fullAt_le period_pos latest_used
    | succ count =>
        have short := Nat.find_min emptied (show count < Nat.find emptied by omega)
        rw [Nat.add_mul, Nat.one_mul]
        omega
  obtain ⟨next, next_eq⟩ : ∃ next,
      next + (burst - 1) * period = fullAt period used now + count * period :=
    ⟨_, Nat.sub_add_cancel ((Nat.le_add_left _ _).trans enough)⟩
  have later : now ≤ next := by omega
  refine ⟨List.replicate count now ++ [next], ?_, ?_, ?_⟩
  · rw [← List.cons_append, ← List.replicate_succ]
    refine List.pairwise_append.mpr ⟨List.pairwise_replicate.mpr (.inr le_rfl),
      List.pairwise_singleton _ _, fun time here last member => ?_⟩
    rw [List.eq_of_mem_replicate here, List.mem_singleton.mp member]
    exact later
  · rw [← List.append_assoc]
    apply (paced_concat_iff burst_pos period_pos fun time member =>
      (latest_replicate latest_used count time member).trans later).mpr
    refine ⟨paced.replicate burst_pos period_pos latest_used left, ?_⟩
    rw [fullAt_of_le later, fullAt_replicate latest_used]
    omega
  · intro paced_times
    rw [← List.append_assoc] at paced_times
    have bounded := ((paced_concat_iff burst_pos period_pos fun time member =>
      (latest_replicate latest count time member).trans later).mp paced_times).2
    rw [fullAt_of_le later, fullAt_replicate latest] at bounded
    omega

end Pacing
