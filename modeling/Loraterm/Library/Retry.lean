import Loraterm.Library.Pacing

/-!
# Retrying with a growing delay

A client that tries again after every attempt waits in between.  The delay doubles from one attempt
to the next, up to a cap, and starts anew after an attempt that succeeded.
-/

namespace Retry

open Pacing

/-- One attempt. -/
structure Attempt where
  start : ℕ
  succeeded : Bool
  deriving DecidableEq, Repr

/-- A delay doubled, up to a cap. -/
def grow (cap delay : ℕ) : ℕ := min (delay * 2) cap

/-- The delay after an attempt. -/
def delayAfter (initial delay : ℕ) (attempt : Attempt) : ℕ :=
  if attempt.succeeded then initial else delay

/-- The delay before an attempt may be followed by the next, after some attempts. -/
def backoff (initial cap : ℕ) (attempts : List Attempt) : ℕ :=
  attempts.foldl (fun delay attempt => grow cap (delayAfter initial delay attempt)) initial

/-- Between two attempts in a row lies at least the delay after the first. -/
def Spaced (initial cap : ℕ) (attempts : List Attempt) : Prop :=
  ∀ earlier attempt next later, attempts = earlier ++ attempt :: next :: later →
    attempt.start + delayAfter initial (backoff initial cap earlier) attempt ≤ next.start

/-- The delays after several failures in a row. -/
def waited (cap : ℕ) : ℕ → ℕ → ℕ
  | _, 0 => 0
  | delay, count + 1 => delay + waited cap (grow cap delay) count

variable {initial cap delay : ℕ} {attempts : List Attempt} {last next : Attempt}

/-! ## Delays -/

theorem iterate_grow (within : delay ≤ cap) (count : ℕ) :
    (grow cap)^[count] delay = min (2 ^ count * delay) cap := by
  induction count generalizing delay with
  | zero => simp [within]
  | succ count ih =>
      have doubled := ih (Nat.min_le_right (delay * 2) cap)
      have capped : cap ≤ 2 ^ count * cap := Nat.le_mul_of_pos_left cap (by positivity)
      rw [Function.iterate_succ_apply, grow, doubled, ← Nat.mul_min_mul_left, min_assoc,
        min_eq_right capped, pow_succ, Nat.mul_assoc, Nat.mul_comm delay 2]

theorem le_grow (positive : initial ≤ cap) (above : initial ≤ delay) : initial ≤ grow cap delay :=
  le_min (by omega) positive

theorem le_delayAfter (above : initial ≤ delay) (attempt : Attempt) :
    initial ≤ delayAfter initial delay attempt := by
  rw [delayAfter]
  split <;> omega

@[simp] theorem backoff_nil (initial cap : ℕ) : backoff initial cap [] = initial := rfl

theorem backoff_concat (initial cap : ℕ) (attempts : List Attempt) (attempt : Attempt) :
    backoff initial cap (attempts ++ [attempt]) =
      grow cap (delayAfter initial (backoff initial cap attempts) attempt) := by
  simp [backoff]

theorem le_backoff (within : initial ≤ cap) (attempts : List Attempt) :
    initial ≤ backoff initial cap attempts := by
  induction attempts using List.reverseRecOn with
  | nil => exact Nat.le_refl initial
  | append_singleton attempts attempt ih =>
      rw [backoff_concat]
      exact le_grow within (le_delayAfter ih attempt)

theorem waited_mono {fewer more : ℕ} (le : fewer ≤ more) (count : ℕ) :
    waited cap fewer count ≤ waited cap more count := by
  induction count generalizing fewer more with
  | zero => exact Nat.le_refl 0
  | succ count ih =>
      have grown : grow cap fewer ≤ grow cap more := min_le_min_right cap (Nat.mul_le_mul_right 2 le)
      exact Nat.add_le_add le (ih grown)

theorem waited_eq_sum (within : delay ≤ cap) (count : ℕ) :
    waited cap delay count = ∑ i ∈ Finset.range count, min (2 ^ i * delay) cap := by
  have steps : ∀ {delay : ℕ}, waited cap delay count =
      ∑ i ∈ Finset.range count, (grow cap)^[i] delay := by
    induction count with
    | zero => simp [waited]
    | succ count ih =>
        intro delay
        rw [waited, ih, Finset.sum_range_succ', Nat.add_comm]
        rfl
  rw [steps]
  exact Finset.sum_congr rfl fun i _ => iterate_grow within i

/-! ## Spacing -/

theorem Spaced.nil : Spaced initial cap [] := by
  intro earlier attempt next later attempts_eq
  simp at attempts_eq

theorem Spaced.of_append {later : List Attempt} (spaced : Spaced initial cap (attempts ++ later)) :
    Spaced initial cap attempts := by
  intro earlier attempt next rest attempts_eq
  exact spaced earlier attempt next (rest ++ later) (by simp [attempts_eq])

/-- The next attempt starts when the delay after the last one is over. -/
theorem Spaced.concat (spaced : Spaced initial cap (attempts ++ [last]))
    (over_delay : last.start + delayAfter initial (backoff initial cap attempts) last ≤ next.start) :
    Spaced initial cap (attempts ++ [last] ++ [next]) := by
  intro earlier attempt following later attempts_eq
  rcases List.eq_nil_or_concat' later with rfl | ⟨rest, final, rfl⟩
  · have split : earlier ++ [attempt] ++ [following] = attempts ++ [last] ++ [next] := by
      simp [attempts_eq]
    obtain ⟨front, rfl⟩ := List.append_singleton_inj.mp split
    obtain ⟨rfl, rfl⟩ := List.append_singleton_inj.mp front
    exact over_delay
  · have split : earlier ++ attempt :: following :: rest ++ [final] =
        attempts ++ [last] ++ [next] := by
      simp [attempts_eq]
    obtain ⟨front, -⟩ := List.append_singleton_inj.mp split
    exact spaced earlier attempt following rest front.symm

theorem Spaced.singleton (attempt : Attempt) : Spaced initial cap [attempt] := by
  intro earlier first next later attempts_eq
  have lengths := congrArg List.length attempts_eq
  simp at lengths
  omega

/-- What became of the last attempt does not matter to those before it. -/
theorem Spaced.replace_last (spaced : Spaced initial cap (attempts ++ [last]))
    (same_start : next.start = last.start) : Spaced initial cap (attempts ++ [next]) := by
  intro earlier attempt following later attempts_eq
  rcases List.eq_nil_or_concat' later with rfl | ⟨rest, final, rfl⟩
  · have split : earlier ++ [attempt] ++ [following] = attempts ++ [next] := by simp [attempts_eq]
    obtain ⟨rfl, rfl⟩ := List.append_singleton_inj.mp split
    rw [same_start]
    exact spaced earlier attempt last [] (by simp)
  · have split : earlier ++ attempt :: following :: rest ++ [final] = attempts ++ [next] := by
      simp [attempts_eq]
    obtain ⟨front, -⟩ := List.append_singleton_inj.mp split
    exact spaced earlier attempt following (rest ++ [last]) (by simp [← front])

/-- Attempts keep the pace of one per initial delay. -/
theorem Spaced.paced (initial_pos : 0 < initial) (within : initial ≤ cap)
    (spaced : Spaced initial cap attempts) : Paced 1 initial (attempts.map Attempt.start) := by
  have filled : ∀ attempts, Spaced initial cap attempts →
      Paced 1 initial (attempts.map Attempt.start) ∧
        ∀ front last, attempts = front ++ [last] →
          (∀ time ∈ front.map Attempt.start, time ≤ last.start) ∧
            fullAt initial (front.map Attempt.start) last.start ≤ last.start := by
    intro attempts
    induction attempts using List.reverseRecOn with
    | nil => exact fun _ => ⟨Paced.nil 1 initial, by simp⟩
    | append_singleton attempts last ih =>
        intro spaced
        obtain ⟨paced, before⟩ := ih spaced.of_append
        have left : (∀ time ∈ attempts.map Attempt.start, time ≤ last.start) ∧
            fullAt initial (attempts.map Attempt.start) last.start ≤ last.start := by
          rcases List.eq_nil_or_concat' attempts with rfl | ⟨front, previous, rfl⟩
          · simp [fullAt]
          · obtain ⟨latest, full⟩ := before front previous rfl
            have gap := spaced front previous last [] (by simp)
            have wide := le_delayAfter (le_backoff within front) previous
            have past : previous.start ≤ last.start := by omega
            rw [List.map_append, List.map_singleton]
            refine ⟨fun time member => ?_, ?_⟩
            · obtain member | member := List.mem_append.mp member
              · exact (latest time member).trans past
              · rw [List.mem_singleton.mp member]
                exact past
            · rw [fullAt_of_le past, fullAt_concat latest]
              omega
        refine ⟨?_, fun front other split => ?_⟩
        · rw [List.map_append, List.map_singleton]
          exact paced.concat Nat.one_pos initial_pos (by omega)
        · obtain ⟨rfl, rfl⟩ := List.append_singleton_inj.mp split
          exact left
  exact (filled attempts spaced).1

/-- Failures in a row take all the delays after them. -/
theorem Spaced.waited_le {earlier failed later : List Attempt} {first : Attempt}
    (spaced : Spaced initial cap (earlier ++ first :: failed ++ next :: later))
    (failures : ∀ attempt ∈ first :: failed, attempt.succeeded = false) :
    first.start + waited cap (backoff initial cap earlier) (failed.length + 1) ≤ next.start := by
  have first_failed : delayAfter initial (backoff initial cap earlier) first =
      backoff initial cap earlier := by
    simp [delayAfter, failures first List.mem_cons_self]
  induction failed generalizing earlier first with
  | nil =>
      have gap := spaced earlier first next later (by simp)
      rw [first_failed] at gap
      simpa [waited] using gap
  | cons second failed ih =>
      have gap := spaced earlier first second (failed ++ next :: later) (by simp)
      have second_failed : second.succeeded = false := failures second (by simp)
      have rest := @ih (earlier ++ [first]) second (by simpa using spaced)
        (fun attempt member => failures attempt (List.mem_cons_of_mem first member))
        (by simp [delayAfter, second_failed])
      rw [backoff_concat, first_failed] at rest
      rw [first_failed] at gap
      have unfolded : waited cap (backoff initial cap earlier) (failed.length + 1 + 1) =
          backoff initial cap earlier +
            waited cap (grow cap (backoff initial cap earlier)) (failed.length + 1) := rfl
      rw [List.length_cons, unfolded]
      omega

end Retry
