import Mathlib

/-!
# Splitting a list after its separators

`splitInclusive` cuts a list after every separator and keeps each separator at the end of its
piece.  The last piece may lack one.  No empty piece is ever produced.
-/

namespace LineSplit

variable {α : Type*} (separator : α → Bool)

/-- Cut after every separator, keeping it. -/
def splitInclusive : List α → List (List α)
  | [] => []
  | symbol :: rest =>
      if separator symbol then
        [symbol] :: splitInclusive rest
      else
        match splitInclusive rest with
        | [] => [[symbol]]
        | line :: lines => (symbol :: line) :: lines

@[simp] theorem splitInclusive_nil : splitInclusive separator [] = [] := rfl

variable {separator}

theorem splitInclusive_cons_separator {symbol : α} (ends : separator symbol = true)
    (rest : List α) :
    splitInclusive separator (symbol :: rest) = [symbol] :: splitInclusive separator rest := by
  simp [splitInclusive, ends]

theorem splitInclusive_eq_nil_iff (symbols : List α) :
    splitInclusive separator symbols = [] ↔ symbols = [] := by
  cases symbols with
  | nil => simp
  | cons symbol rest =>
      simp only [splitInclusive]
      split
      · simp
      · split <;> simp

/-- The pieces concatenate back to the list. -/
@[simp] theorem flatten_splitInclusive (symbols : List α) :
    (splitInclusive separator symbols).flatten = symbols := by
  induction symbols with
  | nil => rfl
  | cons symbol rest ih =>
      simp only [splitInclusive]
      split
      · simp [ih]
      · split
        · rename_i rest_split
          simp [(splitInclusive_eq_nil_iff rest).mp rest_split]
        · rename_i line lines rest_split
          rw [rest_split] at ih
          simpa using ih

/-- A first piece that carries its separator is split off whole. -/
theorem splitInclusive_terminated {body : List α} {terminator : α}
    (unbroken : ∀ symbol ∈ body, separator symbol = false) (ends : separator terminator = true)
    (rest : List α) :
    splitInclusive separator (body ++ terminator :: rest) =
      (body ++ [terminator]) :: splitInclusive separator rest := by
  induction body with
  | nil => simp [splitInclusive, ends]
  | cons symbol body ih =>
      have tail_split := ih fun other member => unbroken other (List.mem_cons_of_mem symbol member)
      simp [splitInclusive, unbroken symbol List.mem_cons_self, tail_split]

/-- A nonempty list without separators is its own only piece. -/
theorem splitInclusive_unterminated {body : List α} (nonempty : body ≠ [])
    (unbroken : ∀ symbol ∈ body, separator symbol = false) :
    splitInclusive separator body = [body] := by
  induction body with
  | nil => exact (nonempty rfl).elim
  | cons symbol body ih =>
      cases body with
      | nil => simp [splitInclusive, unbroken symbol List.mem_cons_self]
      | cons next body =>
          have tail_split := ih (by simp) fun other member =>
            unbroken other (List.mem_cons_of_mem symbol member)
          rw [splitInclusive, tail_split]
          simp [unbroken symbol List.mem_cons_self]

/-- A list either has no separator or splits at its first one. -/
theorem exists_first_separator (symbols : List α) :
    (∀ symbol ∈ symbols, separator symbol = false) ∨
      ∃ body terminator rest, symbols = body ++ terminator :: rest ∧
        (∀ symbol ∈ body, separator symbol = false) ∧ separator terminator = true := by
  induction symbols with
  | nil => simp
  | cons symbol symbols ih =>
      cases ends : separator symbol with
      | true => exact Or.inr ⟨[], symbol, symbols, rfl, by simp, ends⟩
      | false =>
          rcases ih with unbroken | ⟨body, terminator, rest, rfl, unbroken, terminates⟩
          · exact Or.inl (by simpa [ends] using unbroken)
          · exact Or.inr ⟨symbol :: body, terminator, rest, rfl, by simpa [ends] using unbroken,
              terminates⟩

/-- Splitting restarts after a piece that ends in a separator. -/
theorem splitInclusive_append {front : List α} {terminator : α}
    (ends : separator terminator = true) (rest : List α) :
    splitInclusive separator (front ++ terminator :: rest) =
      splitInclusive separator (front ++ [terminator]) ++ splitInclusive separator rest := by
  induction front with
  | nil => simp [splitInclusive_cons_separator ends]
  | cons symbol front ih =>
      have head_ne : splitInclusive separator (front ++ [terminator]) ≠ [] := by
        simp [splitInclusive_eq_nil_iff]
      simp only [List.cons_append, splitInclusive, ih]
      cases lines_eq : splitInclusive separator (front ++ [terminator]) with
      | nil => exact (head_ne lines_eq).elim
      | cons line lines => split <;> simp

/-- The number of pieces is the number of separators, and one more for an unfinished piece. -/
theorem length_splitInclusive (symbols : List α) :
    (splitInclusive separator symbols).length =
      symbols.countP separator +
        if symbols.getLast?.any (fun symbol => !separator symbol) then 1 else 0 := by
  induction symbols with
  | nil => rfl
  | cons symbol rest ih =>
      cases rest with
      | nil => cases ends : separator symbol <;> simp [splitInclusive, ends]
      | cons next rest =>
          have tail_ne : splitInclusive separator (next :: rest) ≠ [] := by
            simp [splitInclusive_eq_nil_iff]
          rw [List.getLast?_cons_cons]
          cases ends : separator symbol with
          | true =>
              rw [splitInclusive_cons_separator ends, List.length_cons, ih,
                List.countP_cons_of_pos ends]
              omega
          | false =>
              rw [splitInclusive, List.countP_cons_of_neg (by simp [ends]), ends]
              cases lines_eq : splitInclusive separator (next :: rest) with
              | nil => exact (tail_ne lines_eq).elim
              | cons line lines =>
                  rw [lines_eq] at ih
                  simpa using ih

/-! ## Lists of pieces -/

variable (separator) in
/-- Lists of pieces as `splitInclusive` makes them. -/
inductive IsSplit : List (List α) → Prop
  | nil : IsSplit []
  | unterminated {body : List α} (nonempty : body ≠ [])
      (unbroken : ∀ symbol ∈ body, separator symbol = false) : IsSplit [body]
  | terminated {body : List α} {terminator : α} {pieces : List (List α)}
      (unbroken : ∀ symbol ∈ body, separator symbol = false)
      (ends : separator terminator = true) (rest : IsSplit pieces) :
      IsSplit ((body ++ [terminator]) :: pieces)

theorem isSplit_splitInclusive (symbols : List α) :
    IsSplit separator (splitInclusive separator symbols) := by
  induction size : symbols.length using Nat.strongRecOn generalizing symbols with
  | ind size ih =>
      rcases @exists_first_separator α separator symbols with
        unbroken | ⟨body, terminator, rest, rfl, unbroken, ends⟩
      · cases symbols with
        | nil => exact .nil
        | cons symbol symbols =>
            rw [splitInclusive_unterminated (List.cons_ne_nil symbol symbols) unbroken]
            exact .unterminated (List.cons_ne_nil symbol symbols) unbroken
      · rw [splitInclusive_terminated unbroken ends]
        refine .terminated unbroken ends (ih rest.length ?_ rest rfl)
        simp only [List.length_append, List.length_cons] at size
        omega

/-- A list of pieces is recovered from its concatenation. -/
theorem IsSplit.splitInclusive_flatten {pieces : List (List α)}
    (split : IsSplit separator pieces) : splitInclusive separator pieces.flatten = pieces := by
  induction split with
  | nil => rfl
  | unterminated nonempty unbroken => simpa using splitInclusive_unterminated nonempty unbroken
  | terminated unbroken ends _ ih =>
      rw [List.flatten_cons, List.append_assoc, List.singleton_append,
        splitInclusive_terminated unbroken ends, ih]

/-- Every piece but the last carries its separator. -/
theorem IsSplit.take_ends {pieces : List (List α)} (split : IsSplit separator pieces)
    {count : Nat} (positive : 0 < count) (more : count < pieces.length) :
    ∃ front terminator, (pieces.take count).flatten = front ++ [terminator] ∧
      separator terminator = true := by
  induction split generalizing count with
  | nil => simp at more
  | unterminated => simp at more; omega
  | @terminated body terminator pieces unbroken ends _ ih =>
      obtain ⟨fewer, rfl⟩ := Nat.exists_eq_succ_of_ne_zero (Nat.ne_of_gt positive)
      rw [Nat.succ_eq_add_one, List.take_succ_cons, List.flatten_cons]
      cases fewer with
      | zero => exact ⟨body, terminator, by simp, ends⟩
      | succ fewer =>
          obtain ⟨front, last, flat_eq, last_ends⟩ :=
            ih (Nat.succ_pos fewer) (by simpa using more)
          exact ⟨body ++ [terminator] ++ front, last, by simp [flat_eq], last_ends⟩

/-- Every piece but the last is a body and its separator. -/
theorem IsSplit.terminated_of_mem_take {pieces : List (List α)} (split : IsSplit separator pieces)
    {count : Nat} (more : count < pieces.length) {piece : List α}
    (member : piece ∈ pieces.take count) :
    ∃ body terminator, piece = body ++ [terminator] ∧
      (∀ symbol ∈ body, separator symbol = false) ∧ separator terminator = true := by
  induction split generalizing count with
  | nil => simp at member
  | unterminated =>
      have none_left : count = 0 := by simpa using more
      simp [none_left] at member
  | @terminated body terminator pieces unbroken ends _ ih =>
      cases count with
      | zero => simp at member
      | succ count =>
          rw [List.take_succ_cons, List.mem_cons] at member
          rcases member with rfl | later
          · exact ⟨body, terminator, rfl, unbroken, ends⟩
          · exact ih (by simpa using more) later

/-- Whole pieces before the last may be followed by any other pieces. -/
theorem IsSplit.take_append {pieces more : List (List α)} (split : IsSplit separator pieces)
    {count : Nat} (fewer : count < pieces.length) (more_split : IsSplit separator more) :
    IsSplit separator (pieces.take count ++ more) := by
  induction split generalizing count with
  | nil => simp at fewer
  | unterminated =>
      have none_left : count = 0 := by simpa using fewer
      simpa [none_left] using more_split
  | terminated unbroken ends _ ih =>
      cases count with
      | zero => simpa using more_split
      | succ count =>
          rw [List.take_succ_cons, List.cons_append]
          exact .terminated unbroken ends (ih (by simpa using fewer))

/-- Dropping pieces leaves a list of pieces. -/
theorem IsSplit.sublist {pieces chosen : List (List α)} (split : IsSplit separator pieces)
    (sub : chosen.Sublist pieces) : IsSplit separator chosen := by
  induction split generalizing chosen with
  | nil =>
      rw [List.sublist_nil.mp sub]
      exact .nil
  | unterminated nonempty unbroken =>
      cases sub with
      | cons _ none =>
          rw [List.sublist_nil.mp none]
          exact .nil
      | cons_cons _ none =>
          rw [List.sublist_nil.mp none]
          exact .unterminated nonempty unbroken
  | terminated unbroken ends _ ih =>
      cases sub with
      | cons _ later => exact ih later
      | cons_cons _ later => exact .terminated unbroken ends (ih later)

/-- What stands before a piece ends in a separator, and the piece is a body with its own, unless it
is the last. -/
theorem IsSplit.at_piece {earlier later : List (List α)} {piece : List α}
    (split : IsSplit separator (earlier ++ piece :: later)) :
    (earlier.flatten = [] ∨ ∃ front terminator, earlier.flatten = front ++ [terminator] ∧
      separator terminator = true) ∧
    ∃ body ender, piece = body ++ ender ∧ (∀ symbol ∈ body, separator symbol = false) ∧
      ((∃ terminator, ender = [terminator] ∧ separator terminator = true) ∨
        ender = [] ∧ later = []) := by
  constructor
  · cases earlier with
    | nil => exact Or.inl rfl
    | cons first earlier =>
        have count_pos : 0 < (first :: earlier).length := Nat.succ_pos earlier.length
        have ends := split.take_ends count_pos (by simp)
        rw [List.take_left] at ends
        exact Or.inr ends
  · have piece_split := split.sublist (List.sublist_append_right earlier (piece :: later))
    cases piece_split with
    | unterminated _ unbroken =>
        exact ⟨piece, [], (List.append_nil piece).symm, unbroken, Or.inr ⟨rfl, rfl⟩⟩
    | @terminated body terminator _ unbroken ends _ =>
        exact ⟨body, [terminator], rfl, unbroken, Or.inl ⟨terminator, rfl, ends⟩⟩

end LineSplit
