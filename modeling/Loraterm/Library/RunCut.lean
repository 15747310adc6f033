import Mathlib

/-!
# Cutting runs

`cutLoop` reads a list once and drops each marked symbol that is past the limit of its run.
Unmarked symbols stay and end a run.
-/

namespace RunCut

variable {α : Type*} (marked : α → Bool) (limit : ℕ)

/-- Drop marked symbols past the limit of their run; `seen` of the current run came before. -/
def cutLoop : ℕ → List α → List α
  | _, [] => []
  | seen, symbol :: rest =>
      if marked symbol then
        if seen + 1 ≤ limit then
          symbol :: cutLoop (seen + 1) rest
        else
          cutLoop (seen + 1) rest
      else
        symbol :: cutLoop 0 rest

/-- At most `limit` marked symbols stand in a row. -/
def Sparse (symbols : List α) : Prop :=
  ∀ run, run <:+: symbols → (∀ symbol ∈ run, marked symbol = true) → run.length ≤ limit

/-- Sparse also after `seen` marked symbols. -/
structure SparseAfter (seen : ℕ) (symbols : List α) : Prop where
  /-- What continues the current run fits it. -/
  front : ∀ run, run <+: symbols → (∀ symbol ∈ run, marked symbol = true) →
    run.length ≤ limit - seen
  /-- Every later run fits. -/
  later : Sparse marked limit symbols

variable {marked limit}

theorem sparseAfter_zero {symbols : List α} (sparse : Sparse marked limit symbols) :
    SparseAfter marked limit 0 symbols where
  front run leading all_marked := sparse run leading.isInfix all_marked
  later := sparse

theorem SparseAfter.nil (seen : ℕ) : SparseAfter marked limit seen [] where
  front run leading _ := by simp [List.prefix_nil.mp leading]
  later run within _ := by simp [List.infix_nil.mp within]

theorem SparseAfter.cons_marked {seen : ℕ} {symbol : α} {rest : List α}
    (room : seen + 1 ≤ limit) (sparse : SparseAfter marked limit (seen + 1) rest) :
    SparseAfter marked limit seen (symbol :: rest) := by
  have front : ∀ run, run <+: symbol :: rest → (∀ symbol ∈ run, marked symbol = true) →
      run.length ≤ limit - seen := by
    intro run leading all_marked
    rcases List.prefix_cons_iff.mp leading with rfl | ⟨tail, rfl, tail_leading⟩
    · simp
    · have tail_fits := sparse.front tail tail_leading fun other member =>
        all_marked other (List.mem_cons_of_mem symbol member)
      rw [List.length_cons]
      omega
  refine ⟨front, fun run within all_marked => ?_⟩
  rcases List.infix_cons_iff.mp within with leading | inside
  · exact (front run leading all_marked).trans (Nat.sub_le limit seen)
  · exact sparse.later run inside all_marked

theorem SparseAfter.cons_unmarked {seen : ℕ} {symbol : α} {rest : List α}
    (unmarked : marked symbol = false) (sparse : SparseAfter marked limit 0 rest) :
    SparseAfter marked limit seen (symbol :: rest) := by
  have front : ∀ run, run <+: symbol :: rest → (∀ symbol ∈ run, marked symbol = true) →
      run = [] := by
    intro run leading all_marked
    rcases List.prefix_cons_iff.mp leading with rfl | ⟨tail, rfl, -⟩
    · rfl
    · simpa [unmarked] using all_marked symbol List.mem_cons_self
  refine ⟨fun run leading all_marked => ?_, fun run within all_marked => ?_⟩
  · simp [front run leading all_marked]
  · rcases List.infix_cons_iff.mp within with leading | inside
    · simp [front run leading all_marked]
    · exact sparse.later run inside all_marked

theorem SparseAfter.tail {seen : ℕ} {symbol : α} {rest : List α}
    (sparse : SparseAfter marked limit seen (symbol :: rest)) : Sparse marked limit rest :=
  fun run within => sparse.later run (within.trans (List.suffix_cons symbol rest).isInfix)

theorem SparseAfter.tail_marked {seen : ℕ} {symbol : α} {rest : List α}
    (is_marked : marked symbol = true)
    (sparse : SparseAfter marked limit seen (symbol :: rest)) :
    SparseAfter marked limit (seen + 1) rest where
  front run leading all_marked := by
    have longer := sparse.front (symbol :: run) (List.cons_prefix_cons.mpr ⟨rfl, leading⟩)
      (by simpa [is_marked] using all_marked)
    rw [List.length_cons] at longer
    omega
  later := sparse.tail

/-- A first marked symbol still has room in its run. -/
theorem SparseAfter.room {seen : ℕ} {symbol : α} {rest : List α}
    (is_marked : marked symbol = true)
    (sparse : SparseAfter marked limit seen (symbol :: rest)) : seen + 1 ≤ limit := by
  have alone := sparse.front [symbol] ⟨rest, rfl⟩ (by simpa using is_marked)
  rw [List.length_singleton] at alone
  omega

/-- The loop leaves no run over its limit. -/
theorem cutLoop_sparseAfter (seen : ℕ) (symbols : List α) :
    SparseAfter marked limit seen (cutLoop marked limit seen symbols) := by
  induction symbols generalizing seen with
  | nil => exact .nil seen
  | cons symbol rest ih =>
      rw [cutLoop]
      split
      · split
        · exact .cons_marked ‹_› (ih (seen + 1))
        · -- the run is already full, so nothing marked may come first
          have full := ih (seen + 1)
          refine ⟨fun run leading all_marked => ?_, full.later⟩
          exact (full.front run leading all_marked).trans (by omega)
      · exact .cons_unmarked (by simpa using ‹¬ marked symbol = true›) (ih 0)

/-- A list whose runs fit passes unchanged. -/
theorem cutLoop_of_sparseAfter {seen : ℕ} {symbols : List α}
    (sparse : SparseAfter marked limit seen symbols) :
    cutLoop marked limit seen symbols = symbols := by
  induction symbols generalizing seen with
  | nil => rfl
  | cons symbol rest ih =>
      rw [cutLoop]
      split
      · rename_i is_marked
        rw [if_pos (sparse.room is_marked), ih (sparse.tail_marked is_marked)]
      · rw [ih (sparseAfter_zero sparse.tail)]

theorem cutLoop_eq_self_iff (symbols : List α) :
    cutLoop marked limit 0 symbols = symbols ↔ Sparse marked limit symbols := by
  constructor
  · intro unchanged
    rw [← unchanged]
    exact (cutLoop_sparseAfter 0 symbols).later
  · intro sparse
    exact cutLoop_of_sparseAfter (sparseAfter_zero sparse)

theorem cutLoop_cutLoop (seen : ℕ) (symbols : List α) :
    cutLoop marked limit seen (cutLoop marked limit seen symbols) =
      cutLoop marked limit seen symbols :=
  cutLoop_of_sparseAfter (cutLoop_sparseAfter seen symbols)

theorem cutLoop_sublist (seen : ℕ) (symbols : List α) :
    (cutLoop marked limit seen symbols).Sublist symbols := by
  induction symbols generalizing seen with
  | nil => exact List.Sublist.slnil
  | cons symbol rest ih =>
      rw [cutLoop]
      split
      · split
        · exact (ih _).cons_cons symbol
        · exact (ih _).cons symbol
      · exact (ih _).cons_cons symbol

/-- Only marked symbols are dropped. -/
theorem filter_cutLoop (seen : ℕ) (symbols : List α) :
    (cutLoop marked limit seen symbols).filter (fun symbol => !marked symbol) =
      symbols.filter fun symbol => !marked symbol := by
  induction symbols generalizing seen with
  | nil => rfl
  | cons symbol rest ih =>
      rw [cutLoop]
      split
      · split <;> simp [*]
      · simp [*]

/-! ## Run by run -/

variable (marked) in
/-- A list cut into its maximal runs: all marked or all unmarked, in turns. -/
structure MaximalRuns (symbols : List α) (runs : List (List α)) : Prop where
  /-- The runs make up the list. -/
  flatten_eq : runs.flatten = symbols
  /-- No run is empty. -/
  nonempty : [] ∉ runs
  /-- A run has one kind of symbol. -/
  uniform : ∀ run ∈ runs, ∀ left ∈ run, ∀ right ∈ run, marked left = marked right
  /-- The next run has the other. -/
  alternate : runs.IsChain fun run next => ∀ left ∈ run, ∀ right ∈ next, marked left ≠ marked right

variable (marked limit) in
/-- A marked run keeps its first `limit` symbols, an unmarked one keeps all. -/
def cutRun (run : List α) : List α :=
  if run.all marked then run.take limit else run

theorem maximalRuns_splitBy (symbols : List α) :
    MaximalRuns marked symbols
      (symbols.splitBy fun left right => marked left == marked right) := by
  have uniform : ∀ run ∈ symbols.splitBy (fun left right => marked left == marked right),
      ∀ left ∈ run, ∀ right ∈ run, marked left = marked right := by
    intro run member
    have chain : run.IsChain fun left right => marked left = marked right := by
      simpa using List.isChain_of_mem_splitBy member
    have : IsTrans α fun left right => marked left = marked right := ⟨fun _ _ _ => Eq.trans⟩
    have : Std.Symm fun left right => marked left = marked right := ⟨fun _ _ => Eq.symm⟩
    have all_same := (List.isChain_iff_pairwise.mp chain).forall_of_forall (by simp)
    exact fun left left_mem right right_mem => all_same left_mem right_mem
  refine ⟨List.flatten_splitBy _ symbols, List.nil_notMem_splitBy _ symbols, uniform, ?_⟩
  have chain := List.isChain_getLast_head_splitBy
    (fun left right => marked left == marked right) symbols
  refine List.isChain_iff_getElem.mpr fun index bound left left_mem right right_mem => ?_
  obtain ⟨run_ne, next_ne, differ⟩ := List.isChain_iff_getElem.mp chain index bound
  have left_eq := uniform _ (List.getElem_mem _) left left_mem _ (List.getLast_mem run_ne)
  have right_eq := uniform _ (List.getElem_mem _) right right_mem _ (List.head_mem next_ne)
  rw [left_eq, right_eq]
  simpa using differ

/-- Marked symbols are kept up to the limit. -/
theorem cutLoop_marked_append (seen : ℕ) {run : List α}
    (all_marked : ∀ symbol ∈ run, marked symbol = true) (rest : List α) :
    cutLoop marked limit seen (run ++ rest) =
      run.take (limit - seen) ++ cutLoop marked limit (seen + run.length) rest := by
  induction run generalizing seen with
  | nil => simp
  | cons symbol run ih =>
      have run_cut := ih (seen + 1) fun other member =>
        all_marked other (List.mem_cons_of_mem symbol member)
      have seen_eq : seen + 1 + run.length = seen + (run.length + 1) := by omega
      rw [List.cons_append, cutLoop, if_pos (all_marked symbol List.mem_cons_self), run_cut,
        List.length_cons, seen_eq]
      split
      · obtain ⟨room, room_eq⟩ : ∃ room, limit - seen = room + 1 := ⟨limit - seen - 1, by omega⟩
        have less_room : limit - (seen + 1) = room := by omega
        rw [room_eq, less_room, List.take_succ_cons, List.cons_append]
      · have no_room : limit - seen = 0 := by omega
        have none_later : limit - (seen + 1) = 0 := by omega
        simp [no_room, none_later]

/-- Unmarked symbols are kept and end the run. -/
theorem cutLoop_unmarked_append (seen : ℕ) {run : List α} (nonempty : run ≠ [])
    (unmarked : ∀ symbol ∈ run, marked symbol = false) (rest : List α) :
    cutLoop marked limit seen (run ++ rest) = run ++ cutLoop marked limit 0 rest := by
  induction run generalizing seen with
  | nil => exact (nonempty rfl).elim
  | cons symbol run ih =>
      have first : marked symbol ≠ true := by simp [unmarked symbol List.mem_cons_self]
      rw [List.cons_append, cutLoop, if_neg first]
      cases run with
      | nil => rfl
      | cons next run =>
          rw [ih 0 (by simp) fun other member =>
            unmarked other (List.mem_cons_of_mem symbol member)]
          rfl

/-- A run that has ended no longer counts. -/
theorem cutLoop_restart (seen : ℕ) {rest : List α}
    (fresh : ∀ symbol ∈ rest.head?, marked symbol = false) :
    cutLoop marked limit seen rest = cutLoop marked limit 0 rest := by
  cases rest with
  | nil => rfl
  | cons symbol rest =>
      have first : marked symbol ≠ true := by simpa using fresh symbol rfl
      rw [cutLoop, cutLoop, if_neg first, if_neg first]

/-- What comes after a marked run starts unmarked. -/
theorem unmarked_after_run {run : List α} {later : List (List α)} (run_ne : run ≠ [])
    (all_marked : ∀ symbol ∈ run, marked symbol = true) (nonempty : [] ∉ later)
    (alternate : (run :: later).IsChain
      fun run next => ∀ left ∈ run, ∀ right ∈ next, marked left ≠ marked right) :
    ∀ symbol ∈ later.flatten.head?, marked symbol = false := by
  cases later with
  | nil => simp
  | cons next later =>
      obtain ⟨head, tail, rfl⟩ := List.exists_cons_of_ne_nil fun empty : next = [] =>
        nonempty (by simp [empty])
      obtain ⟨first, before, rfl⟩ := List.exists_cons_of_ne_nil run_ne
      have differ := (List.isChain_cons_cons.mp alternate).1 first List.mem_cons_self
        head List.mem_cons_self
      rw [all_marked first List.mem_cons_self] at differ
      simpa using differ.symm

/-- The loop cuts every maximal run on its own. -/
theorem MaximalRuns.cutLoop_eq {symbols : List α} {runs : List (List α)}
    (maximal : MaximalRuns marked symbols runs) :
    cutLoop marked limit 0 symbols = runs.flatMap (cutRun marked limit) := by
  obtain ⟨rfl, nonempty, uniform, alternate⟩ := maximal
  induction runs with
  | nil => rfl
  | cons run later ih =>
      have later_cut := ih (fun member => nonempty (List.mem_cons_of_mem run member))
        (fun other member => uniform other (List.mem_cons_of_mem run member)) alternate.tail
      have run_ne : run ≠ [] := fun empty => nonempty (empty ▸ List.mem_cons_self)
      rw [List.flatten_cons, List.flatMap_cons, ← later_cut, cutRun]
      split
      · rename_i all_marked
        rw [List.all_eq_true] at all_marked
        have fresh := unmarked_after_run run_ne all_marked
          (fun member => nonempty (List.mem_cons_of_mem run member)) alternate
        rw [cutLoop_marked_append 0 all_marked, cutLoop_restart _ fresh, Nat.sub_zero]
      · rename_i not_all
        have unmarked : ∀ symbol ∈ run, marked symbol = false := by
          intro symbol member
          obtain ⟨other, other_mem, other_unmarked⟩ : ∃ other ∈ run, marked other = false := by
            simpa using not_all
          rw [uniform run List.mem_cons_self symbol member other other_mem, other_unmarked]
        rw [cutLoop_unmarked_append 0 run_ne unmarked]

end RunCut
