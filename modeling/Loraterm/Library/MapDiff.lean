import Mathlib

/-!
# Differences of partial maps

Two partial maps differ on the keys only the old one has, the keys only the new one has and the
keys both have with different values.  The three sets are disjoint, the maps agree everywhere else,
and patching the old map along them gives the new one.
-/

namespace MapDiff

variable {κ α : Type*}

/-- Keys of the old map that the new one lacks. -/
def removed (old new : κ → Option α) : Set κ :=
  {key | (old key).isSome ∧ new key = none}

/-- Keys of the new map that the old one lacks. -/
def added (old new : κ → Option α) : Set κ := removed new old

/-- Keys of both with different values. -/
def changed (old new : κ → Option α) : Set κ :=
  {key | ∃ before after, old key = some before ∧ new key = some after ∧ before ≠ after}

open Classical in
/-- Drop some keys and give others the value they have in another map. -/
noncomputable def patch (old new : κ → Option α) (dropped updated : Set κ) : κ → Option α :=
  fun key => if key ∈ dropped then none else if key ∈ updated then new key else old key

variable (old new : κ → Option α)

/-- The three sets hold exactly the keys where the maps differ. -/
theorem mem_union_iff (key : κ) :
    key ∈ removed old new ∪ added old new ∪ changed old new ↔ old key ≠ new key := by
  simp only [Set.mem_union, removed, added, changed, Set.mem_ofPred_eq]
  cases old key <;> cases new key <;> simp

theorem disjoint_removed_added : Disjoint (removed old new) (added old new) := by
  refine Set.disjoint_left.mpr fun key gone came => ?_
  have old_none : old key = none := came.2
  simp [removed, old_none] at gone

theorem disjoint_removed_changed : Disjoint (removed old new) (changed old new) := by
  refine Set.disjoint_left.mpr fun key gone => ?_
  rintro ⟨before, after, -, new_eq, -⟩
  exact Option.some_ne_none after (new_eq.symm.trans gone.2)

theorem changed_swap : changed new old = changed old new := by
  ext key
  constructor <;> rintro ⟨before, after, first, second, differ⟩ <;>
    exact ⟨after, before, second, first, differ.symm⟩

theorem disjoint_added_changed : Disjoint (added old new) (changed old new) := by
  rw [← changed_swap]
  exact disjoint_removed_changed new old

/-- Outside the three sets the maps agree. -/
theorem eq_of_notMem {key : κ} (kept : key ∉ removed old new) (not_new : key ∉ added old new)
    (same : key ∉ changed old new) : old key = new key := by
  by_contra differ
  rcases (mem_union_iff old new key).mpr differ with (gone | came) | other
  · exact kept gone
  · exact not_new came
  · exact same other

/-- The old map patched along the difference is the new map. -/
theorem patch_eq : patch old new (removed old new) (added old new ∪ changed old new) = new := by
  funext key
  rw [patch]
  split
  · rename_i gone
    exact gone.2.symm
  · rename_i kept
    split
    · rfl
    · rename_i stays
      rw [Set.mem_union, not_or] at stays
      exact eq_of_notMem old new kept stays.1 stays.2

end MapDiff
