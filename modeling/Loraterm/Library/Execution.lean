import Mathlib

/-!
# Executions of partial step functions

A system is a step function that returns `none` on an action that is not enabled.  A run takes a
schedule of actions one after the other; an interleaving of several parties is a schedule of the
actions of all of them.  The rules below carry facts about one step to facts about whole runs.
-/

namespace Execution

variable {σ τ α β : Type*}

/-- Take the actions of a schedule one after the other. -/
def run (step : σ → α → Option σ) : σ → List α → Option σ
  | state, [] => some state
  | state, action :: schedule => (step state action).bind (run step · schedule)

/-- Every step of a schedule meets a condition on its action and on the state before it. -/
def AllSteps (step : σ → α → Option σ) (condition : σ → α → Prop) : σ → List α → Prop
  | _, [] => True
  | state, action :: schedule =>
      condition state action ∧
        ∀ next, step state action = some next → AllSteps step condition next schedule

/-- Every state a schedule goes through has a property. -/
def AllStates (step : σ → α → Option σ) (Property : σ → Prop) : σ → List α → Prop
  | state, [] => Property state
  | state, action :: schedule =>
      Property state ∧
        ∀ next, step state action = some next → AllStates step Property next schedule

/-- A schedule of allowed actions leads from one state to another. -/
def Leads (step : σ → α → Option σ) (allowed : α → Prop) (start final : σ) : Prop :=
  ∃ schedule, (∀ action ∈ schedule, allowed action) ∧ run step start schedule = some final

variable {step : σ → α → Option σ} {start middle final : σ}

@[simp] theorem run_nil (state : σ) : run step state [] = some state := rfl

theorem run_cons_eq_some {action : α} {schedule : List α} :
    run step start (action :: schedule) = some final ↔
      ∃ next, step start action = some next ∧ run step next schedule = some final := by
  simp [run, Option.bind_eq_some_iff]

theorem run_append (first second : List α) :
    run step start (first ++ second) = (run step start first).bind (run step · second) := by
  induction first generalizing start with
  | nil => rfl
  | cons action first ih =>
      cases stepped : step start action with
      | none => simp [run, stepped]
      | some next => simp [run, stepped, ih]

theorem run_append_eq_some {first second : List α} :
    run step start (first ++ second) = some final ↔
      ∃ middle, run step start first = some middle ∧ run step middle second = some final := by
  rw [run_append, Option.bind_eq_some_iff]

theorem run_concat_eq_some {schedule : List α} {action : α} :
    run step start (schedule ++ [action]) = some final ↔
      ∃ middle, run step start schedule = some middle ∧ step middle action = some final := by
  simp [run_append_eq_some, run_cons_eq_some]

/-! ## Where a schedule leads -/

variable {allowed : α → Prop}

theorem Leads.refl (state : σ) : Leads step allowed state state := ⟨[], by simp, rfl⟩

theorem Leads.head {action : α} (permitted : allowed action)
    (stepped : step start action = some middle) (rest : Leads step allowed middle final) :
    Leads step allowed start final := by
  obtain ⟨schedule, all_allowed, ran⟩ := rest
  exact ⟨action :: schedule, List.forall_mem_cons.mpr ⟨permitted, all_allowed⟩,
    run_cons_eq_some.mpr ⟨middle, stepped, ran⟩⟩

theorem Leads.single {action : α} (permitted : allowed action)
    (stepped : step start action = some final) : Leads step allowed start final :=
  .head permitted stepped (.refl final)

theorem Leads.trans (first : Leads step allowed start middle)
    (second : Leads step allowed middle final) : Leads step allowed start final := by
  obtain ⟨earlier, earlier_allowed, ran⟩ := first
  obtain ⟨later, later_allowed, ran_later⟩ := second
  refine ⟨earlier ++ later, ?_, run_append_eq_some.mpr ⟨middle, ran, ran_later⟩⟩
  exact List.forall_mem_append.mpr ⟨earlier_allowed, later_allowed⟩

/-- What allowed steps preserve, holds wherever they lead. -/
theorem Leads.invariant {Invariant : σ → Prop} (leads : Leads step allowed start final)
    (preserved : ∀ state action next, Invariant state → allowed action →
      step state action = some next → Invariant next)
    (initially : Invariant start) : Invariant final := by
  obtain ⟨schedule, all_allowed, ran⟩ := leads
  induction schedule generalizing start with
  | nil =>
      obtain rfl := Option.some.inj ran
      exact initially
  | cons action schedule ih =>
      obtain ⟨next, stepped, ran_rest⟩ := run_cons_eq_some.mp ran
      obtain ⟨allowed_here, allowed_rest⟩ := List.forall_mem_cons.mp all_allowed
      exact ih (preserved start action next initially allowed_here stepped) allowed_rest ran_rest

/-- What a part of the system can do alone, the system can do. -/
theorem Leads.lift {part : τ → β → Option τ} {permitted : β → Prop} {before after : τ}
    (leads : Leads part permitted before after) (embed : τ → σ) (action_of : β → α)
    (embedded : ∀ state action next, part state action = some next →
      step (embed state) (action_of action) = some (embed next))
    (kept : ∀ action, permitted action → allowed (action_of action)) :
    Leads step allowed (embed before) (embed after) := by
  obtain ⟨schedule, all_permitted, ran⟩ := leads
  induction schedule generalizing before with
  | nil =>
      obtain rfl := Option.some.inj ran
      exact .refl _
  | cons action schedule ih =>
      obtain ⟨next, stepped, ran_rest⟩ := run_cons_eq_some.mp ran
      obtain ⟨permitted_here, permitted_rest⟩ := List.forall_mem_cons.mp all_permitted
      exact .head (kept action permitted_here) (embedded before action next stepped)
        (ih permitted_rest ran_rest)

/-! ## From one step to a run -/

/-- What every step preserves under a condition, every run preserves whose steps all meet it. -/
theorem invariant_of_steps {Invariant : σ → Prop} {condition : σ → α → Prop}
    (preserved : ∀ state action next, Invariant state → condition state action →
      step state action = some next → Invariant next)
    {schedule : List α} (ran : run step start schedule = some final)
    (conditions : AllSteps step condition start schedule) (initially : Invariant start) :
    Invariant final := by
  induction schedule generalizing start with
  | nil =>
      obtain rfl : start = final := by simpa using ran
      exact initially
  | cons action schedule ih =>
      obtain ⟨next, stepped, ran_rest⟩ := run_cons_eq_some.mp ran
      obtain ⟨condition_here, conditions_rest⟩ := conditions
      exact ih ran_rest (conditions_rest next stepped)
        (preserved start action next initially condition_here stepped)

theorem allSteps_true (schedule : List α) : AllSteps step (fun _ _ => True) start schedule := by
  induction schedule generalizing start with
  | nil => trivial
  | cons action schedule ih => exact ⟨trivial, fun next _ => ih⟩

/-- What every step preserves, every run preserves. -/
theorem invariant_of_run {Invariant : σ → Prop}
    (preserved : ∀ state action next, Invariant state → step state action = some next →
      Invariant next)
    {schedule : List α} (ran : run step start schedule = some final)
    (initially : Invariant start) : Invariant final :=
  invariant_of_steps
    (fun state action next holds _ stepped => preserved state action next holds stepped) ran
    (allSteps_true schedule) initially

/-- Whether the steps of a schedule meet a condition can be checked by taking them. -/
instance decidableAllSteps {condition : σ → α → Prop}
    [∀ state action, Decidable (condition state action)] :
    ∀ state schedule, Decidable (AllSteps step condition state schedule)
  | _, [] => .isTrue trivial
  | state, action :: schedule =>
      match stepped : step state action with
      | none => decidable_of_iff (condition state action) (by simp [AllSteps, stepped])
      | some next =>
          have : Decidable (AllSteps step condition next schedule) := decidableAllSteps next schedule
          decidable_of_iff (condition state action ∧ AllSteps step condition next schedule)
            (by simp [AllSteps, stepped])

theorem AllStates.last {Property : σ → Prop} {schedule : List α}
    (states : AllStates step Property start schedule) (ran : run step start schedule = some final) :
    Property final := by
  induction schedule generalizing start with
  | nil =>
      obtain rfl := Option.some.inj ran
      exact states
  | cons action schedule ih =>
      obtain ⟨next, stepped, ran_rest⟩ := run_cons_eq_some.mp ran
      exact ih (states.2 next stepped) ran_rest

/-- A property that steps under a condition preserve, and no others do, holds all through a run
exactly when all its steps meet the condition. -/
theorem allStates_iff_allSteps {Invariant Property : σ → Prop} {condition : σ → α → Prop}
    (preserved : ∀ state action next, Invariant state → step state action = some next →
      Invariant next)
    (sufficient : ∀ state action next, Invariant state → Property state → condition state action →
      step state action = some next → Property next)
    (necessary : ∀ state action next, Invariant state → Property state → Property next →
      step state action = some next → condition state action)
    {schedule : List α} (ran : run step start schedule = some final)
    (invariant : Invariant start) (initially : Property start) :
    AllStates step Property start schedule ↔ AllSteps step condition start schedule := by
  induction schedule generalizing start with
  | nil => exact ⟨fun _ => trivial, fun _ => initially⟩
  | cons action schedule ih =>
      obtain ⟨next, stepped, ran_rest⟩ := run_cons_eq_some.mp ran
      have rest : Property next →
          (AllStates step Property next schedule ↔ AllSteps step condition next schedule) :=
        fun holds => ih ran_rest (preserved start action next invariant stepped) holds
      constructor
      · rintro ⟨-, states⟩
        have next_states := states next stepped
        have holds : Property next := by
          cases schedule with
          | nil => exact next_states
          | cons => exact next_states.1
        refine ⟨necessary start action next invariant initially holds stepped, fun other other_eq => ?_⟩
        obtain rfl : next = other := by simpa [stepped] using other_eq
        exact (rest holds).mp next_states
      · rintro ⟨condition_here, steps⟩
        refine ⟨initially, fun other other_eq => ?_⟩
        obtain rfl : next = other := by simpa [stepped] using other_eq
        exact (rest (sufficient start action next invariant initially condition_here stepped)).mpr
          (steps next stepped)

/-! ## Counting steps -/

/-- Steps that lower a rank which no step raises are no more than the rank. -/
theorem countP_le_rank {Invariant : σ → Prop} {counted : α → Bool} {rank : σ → ℕ}
    (preserved : ∀ state action next, Invariant state → step state action = some next →
      Invariant next)
    (lowered : ∀ state action next, Invariant state → step state action = some next →
      rank next + (if counted action then 1 else 0) ≤ rank state)
    {schedule : List α} (ran : run step start schedule = some final)
    (initially : Invariant start) : schedule.countP counted + rank final ≤ rank start := by
  induction schedule generalizing start with
  | nil =>
      obtain rfl := Option.some.inj ran
      simp
  | cons action schedule ih =>
      obtain ⟨next, stepped, ran_rest⟩ := run_cons_eq_some.mp ran
      have here := lowered start action next initially stepped
      have rest := ih ran_rest (preserved start action next initially stepped)
      rw [List.countP_cons]
      omega

/-! ## Observations -/

/-- What the steps of a schedule show to the outside, one after the other. -/
def observe (step : σ → α → Option σ) (shows : σ → α → List β) : σ → List α → List β
  | _, [] => []
  | state, action :: schedule =>
      shows state action ++ ((step state action).map (observe step shows · schedule)).getD []

theorem observe_cons {shows : σ → α → List β} {action : α} (schedule : List α)
    (stepped : step start action = some middle) :
    observe step shows start (action :: schedule) =
      shows start action ++ observe step shows middle schedule := by
  rw [observe, stepped]
  rfl

/-- What steps under a condition preserve of a state and of what was seen so far holds at the end of a
run, of all that the run shows. -/
theorem invariant_of_observed {shows : σ → α → List β} {Invariant : σ → List β → Prop}
    {condition : σ → α → Prop}
    (preserved : ∀ state action next seen, Invariant state seen → condition state action →
      step state action = some next → Invariant next (seen ++ shows state action))
    {schedule : List α} (ran : run step start schedule = some final)
    (conditions : AllSteps step condition start schedule) (initially : Invariant start []) :
    Invariant final (observe step shows start schedule) := by
  have from_seen : ∀ (schedule : List α) (start : σ) (seen : List β), Invariant start seen →
      AllSteps step condition start schedule → run step start schedule = some final →
        Invariant final (seen ++ observe step shows start schedule) := by
    intro schedule
    induction schedule with
    | nil =>
        intro start seen holds _ ran
        obtain rfl := Option.some.inj ran
        rw [observe, List.append_nil]
        exact holds
    | cons action schedule ih =>
        intro start seen holds conditions ran
        obtain ⟨next, stepped, ran_rest⟩ := run_cons_eq_some.mp ran
        obtain ⟨condition_here, conditions_rest⟩ := conditions
        rw [observe_cons schedule stepped, ← List.append_assoc]
        exact ih next _ (preserved start action next seen holds condition_here stepped)
          (conditions_rest next stepped) ran_rest
  exact from_seen schedule start [] initially conditions ran

/-! ## The step that ends something -/

theorem AllSteps.concat {condition : σ → α → Prop} {schedule : List α} {action : α}
    (conditions : AllSteps step condition start schedule)
    (ran : run step start schedule = some final) (here : condition final action) :
    AllSteps step condition start (schedule ++ [action]) := by
  induction schedule generalizing start with
  | nil =>
      obtain rfl := Option.some.inj ran
      exact ⟨here, fun _ _ => trivial⟩
  | cons first schedule ih =>
      obtain ⟨next, stepped, ran_rest⟩ := run_cons_eq_some.mp ran
      refine ⟨conditions.1, fun other other_eq => ?_⟩
      obtain rfl : next = other := by simpa [stepped] using other_eq
      exact ih (conditions.2 next stepped) ran_rest

theorem AllSteps.of_append {condition : σ → α → Prop} {first second : List α}
    (conditions : AllSteps step condition start (first ++ second)) :
    AllSteps step condition start first := by
  induction first generalizing start with
  | nil => trivial
  | cons action first ih => exact ⟨conditions.1, fun next stepped => ih (conditions.2 next stepped)⟩

/-- A run that ends outside a set of states it starts in leaves it with some step. -/
theorem exists_exit {Inside : σ → Prop} {schedule : List α}
    (ran : run step start schedule = some final) (inside : Inside start) (outside : ¬ Inside final) :
    ∃ before action after last next, schedule = before ++ action :: after ∧
      run step start before = some last ∧ Inside last ∧ step last action = some next ∧
        ¬ Inside next ∧ run step next after = some final := by
  induction schedule generalizing start with
  | nil =>
      obtain rfl := Option.some.inj ran
      exact (outside inside).elim
  | cons action schedule ih =>
      obtain ⟨next, stepped, ran_rest⟩ := run_cons_eq_some.mp ran
      by_cases still : Inside next
      · obtain ⟨before, exit, after, last, left, rfl, ran_before, rest⟩ := ih ran_rest still
        exact ⟨action :: before, exit, after, last, left, rfl,
          run_cons_eq_some.mpr ⟨next, stepped, ran_before⟩, rest⟩
      · exact ⟨[], action, schedule, start, next, rfl, rfl, inside, stepped, still, ran_rest⟩

end Execution
