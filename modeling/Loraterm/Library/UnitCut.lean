import Mathlib

/-!
# Cutting a stream of encoded units

A stream is the concatenation of the encodings of its units.  A cut of the stream falls between
two units or strictly inside one.  A cut just after a separator that only occurs as a unit of its
own falls between two units, and a stream that is only cut between units is a list of runs of
complete units.
-/

namespace UnitCut

variable {α β : Type*}

/-- The concatenated encodings of a list of units. -/
def stream (encode : α → List β) (units : List α) : List β := units.flatMap encode

variable {encode : α → List β}

@[simp] theorem stream_nil : stream encode [] = [] := rfl

@[simp] theorem stream_cons (unit : α) (units : List α) :
    stream encode (unit :: units) = encode unit ++ stream encode units := rfl

@[simp] theorem stream_append (left right : List α) :
    stream encode (left ++ right) = stream encode left ++ stream encode right := by
  simp [stream]

theorem stream_eq_nil {units : List α} (nonempty : ∀ unit, encode unit ≠ [])
    (empty : stream encode units = []) : units = [] := by
  cases units with
  | nil => rfl
  | cons unit units => exact (nonempty unit (List.append_eq_nil_iff.mp empty).1).elim

/-- A beginning of the stream that ends between two units. -/
def Between (encode : α → List β) (units : List α) (head : List β) : Prop :=
  ∃ before after, before ++ after = units ∧ stream encode before = head

/-- A proper beginning of one unit, or nothing. -/
def Unfinished (encode : α → List β) (part : List β) : Prop :=
  part = [] ∨ ∃ unit late, late ≠ [] ∧ encode unit = part ++ late

/-! ## Single cuts -/

theorem between_nil (units : List α) : Between encode units [] := ⟨[], units, rfl, rfl⟩

/-- Where a cut falls, with both sides of it. -/
theorem cut_cases {units : List α} {head tail : List β}
    (cut : stream encode units = head ++ tail) :
    (∃ before after, units = before ++ after ∧ head = stream encode before ∧
      tail = stream encode after) ∨
    ∃ before unit after part late,
      units = before ++ unit :: after ∧ encode unit = part ++ late ∧ part ≠ [] ∧ late ≠ [] ∧
        head = stream encode before ++ part ∧ tail = late ++ stream encode after := by
  induction units generalizing head with
  | nil =>
      obtain ⟨rfl, rfl⟩ := List.append_eq_nil_iff.mp cut.symm
      exact .inl ⟨[], [], rfl, rfl, rfl⟩
  | cons unit units ih =>
      rw [stream_cons, List.append_eq_append_iff] at cut
      rcases cut with ⟨head', rfl, cut⟩ | ⟨late, encode_eq, rfl⟩
      · rcases ih cut with ⟨before, after, rfl, rfl, rfl⟩ |
          ⟨before, other, after, part, late, rfl, split, part_ne, late_ne, rfl, rfl⟩
        · exact .inl ⟨unit :: before, after, rfl, rfl, rfl⟩
        · exact .inr ⟨unit :: before, other, after, part, late, rfl, split, part_ne, late_ne,
            by simp, rfl⟩
      · by_cases head_eq : head = []
        · subst head_eq
          exact .inl ⟨[], unit :: units, rfl, rfl, by simp [encode_eq]⟩
        · by_cases late_eq : late = []
          · subst late_eq
            exact .inl ⟨[unit], units, rfl, by simp [encode_eq], by simp⟩
          · exact .inr ⟨[], unit, units, head, late, rfl, encode_eq, head_eq, late_eq, by simp,
              rfl⟩

/-- A separator that only occurs alone is never inside a unit. -/
theorem between_of_separator {units : List α} {head tail : List β} {separator : β}
    (alone : ∀ unit ∈ units, separator ∈ encode unit → encode unit = [separator])
    (cut : stream encode units = head ++ tail) (last : head.getLast? = some separator) :
    Between encode units head := by
  rcases cut_cases cut with ⟨before, after, rfl, rfl, -⟩ |
    ⟨before, unit, after, part, late, rfl, split, part_ne, late_ne, rfl, -⟩
  · exact ⟨before, after, rfl, rfl⟩
  · -- the unit would contain the separator and at least one more symbol
    have separator_mem : separator ∈ part := by
      rw [List.getLast?_append_of_ne_nil _ part_ne] at last
      exact List.mem_of_getLast? last
    have single := alone unit (by simp) (by rw [split]; exact List.mem_append_left _ separator_mem)
    have lengths := congrArg List.length (split.symm.trans single)
    have part_pos := List.length_pos_iff.mpr part_ne
    have late_pos := List.length_pos_iff.mpr late_ne
    simp only [List.length_append, List.length_singleton] at lengths
    omega

/-- Complete units in front of a cut do not matter. -/
theorem Between.cancel {before after : List α} {head : List β}
    (between : Between encode (before ++ after) (stream encode before ++ head)) :
    Between encode after head := by
  obtain ⟨first, second, joined, stream_eq⟩ := between
  rcases List.append_eq_append_iff.mp joined with ⟨middle, rfl, rfl⟩ | ⟨middle, rfl, rfl⟩
  · have head_eq : head = [] := by
      simp only [stream_append, List.append_assoc] at stream_eq
      have lengths := congrArg List.length stream_eq
      simp only [List.length_append] at lengths
      exact List.length_eq_zero_iff.mp (by omega)
    rw [head_eq]
    exact between_nil _
  · rw [stream_append, List.append_cancel_left_eq] at stream_eq
    exact ⟨middle, second, rfl, stream_eq⟩

/-! ## Lists of blocks -/

/-- The blocks are runs of complete units. -/
def Whole (encode : α → List β) (units : List α) (blocks : List (List β)) : Prop :=
  ∃ groups : List (List α), groups.flatten = units ∧ groups.map (stream encode) = blocks

theorem Whole.cons {before after : List α} {blocks : List (List β)}
    (whole : Whole encode after blocks) :
    Whole encode (before ++ after) (stream encode before :: blocks) := by
  obtain ⟨groups, rfl, rfl⟩ := whole
  exact ⟨before :: groups, rfl, rfl⟩

theorem whole_singleton (units : List α) : Whole encode units [stream encode units] :=
  ⟨[units], by simp, rfl⟩

/-- The boundary between two blocks of complete units is between two units. -/
theorem Whole.between {units : List α} {front back : List (List β)}
    (whole : Whole encode units (front ++ back)) : Between encode units front.flatten := by
  obtain ⟨groups, rfl, blocks_eq⟩ := whole
  obtain ⟨first, second, rfl, rfl, -⟩ := List.map_eq_append_iff.mp blocks_eq
  refine ⟨first.flatten, second.flatten, by simp, ?_⟩
  clear blocks_eq
  induction first with
  | nil => rfl
  | cons group first ih => simp [ih]

end UnitCut
