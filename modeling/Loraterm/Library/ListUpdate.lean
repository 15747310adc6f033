import Mathlib

/-!
# Updates and selections of lists

Changing one item of a list, and the sublist of the items of one kind: an item of the kind is found
there at its rank, the number of such items before it, and a change of one item is a change of one
item there or none.
-/

namespace ListUpdate

variable {α β : Type*} {items other : List α} {index : ℕ} {item : α} {change : α → α} {kind : α → Bool}

/-! ## One item -/

theorem exists_split_of_getElem? (at_index : items[index]? = some item) :
    ∃ front back, items = front ++ item :: back ∧ front.length = index := by
  obtain ⟨inside, item_eq⟩ := List.getElem?_eq_some_iff.mp at_index
  refine ⟨items.take index, items.drop (index + 1), ?_, List.length_take_of_le inside.le⟩
  rw [← item_eq, ← List.drop_eq_getElem_cons inside, List.take_append_drop]

theorem map_modify_of_eq {view : α → β} (same : ∀ item, view (change item) = view item)
    (items : List α) (index : ℕ) : (items.modify index change).map view = items.map view := by
  apply List.ext_getElem?
  intro place
  rw [List.getElem?_map, List.getElem?_map, List.getElem?_modify]
  cases items[place]? with
  | none => rfl
  | some item =>
      by_cases here : index = place
      · simp [here, same]
      · simp [here]

theorem set_of_getElem? (at_index : items[index]? = some item) : items.set index item = items := by
  obtain ⟨inside, rfl⟩ := List.getElem?_eq_some_iff.mp at_index
  exact List.set_getElem_self inside

theorem modify_of_getElem? (at_index : items[index]? = some item) :
    items.modify index change = items.set index (change item) := by
  rw [List.modify_eq_set_getElem?, at_index]
  rfl

/-! ## The items of a kind -/

/-- How many items of a kind stand before an index. -/
def rank (kind : α → Bool) (items : List α) (index : ℕ) : ℕ := (items.take index).countP kind

theorem rank_append (more : List α) (inside : index ≤ items.length) :
    rank kind (items ++ more) index = rank kind items index := by
  rw [rank, rank, List.take_append_of_le_length inside]

theorem rank_length : rank kind items items.length = (items.filter kind).length := by
  rw [rank, List.take_length, List.countP_eq_length_filter]

/-- Lists of the same kinds have the same ranks. -/
theorem rank_of_map (same : items.map kind = other.map kind) :
    rank kind items index = rank kind other index := by
  have kinds : ∀ list : List α, list.countP kind = (list.map kind).countP id := by
    intro list
    rw [List.countP_map]
    rfl
  rw [rank, rank, kinds, kinds, List.map_take, List.map_take, same]

theorem rank_modify (same : ∀ item, kind (change item) = kind item) (place : ℕ) :
    rank kind (items.modify place change) index = rank kind items index :=
  rank_of_map (map_modify_of_eq same items place)

theorem rank_set {new : α} {place : ℕ} (at_place : items[place]? = some item)
    (same : kind new = kind item) :
    rank kind (items.set place new) index = rank kind items index := by
  have kind_at : (items.map kind)[place]? = some (kind item) := by rw [List.getElem?_map, at_place]; rfl
  apply rank_of_map
  rw [List.map_set, same, set_of_getElem? kind_at]

theorem getElem?_rank (at_index : items[index]? = some item) (of_kind : kind item = true) :
    (items.filter kind)[rank kind items index]? = some item := by
  obtain ⟨front, back, rfl, rfl⟩ := exists_split_of_getElem? at_index
  rw [rank, List.take_left, List.filter_append, List.filter_cons_of_pos of_kind,
    List.countP_eq_length_filter]
  simp

theorem filter_set_of_pos {new : α} (at_index : items[index]? = some item)
    (of_kind : kind item = true) (still : kind new = true) :
    (items.set index new).filter kind = (items.filter kind).set (rank kind items index) new := by
  obtain ⟨front, back, rfl, rfl⟩ := exists_split_of_getElem? at_index
  rw [rank, List.take_left, List.countP_eq_length_filter]
  simp [List.filter_append, List.filter_cons_of_pos of_kind, List.filter_cons_of_pos still]

theorem filter_set_of_neg {new : α} (at_index : items[index]? = some item)
    (not_of_kind : kind item = false) (still : kind new = false) :
    (items.set index new).filter kind = items.filter kind := by
  obtain ⟨front, back, rfl, rfl⟩ := exists_split_of_getElem? at_index
  simp [List.filter_append, not_of_kind, still]

theorem filter_modify_of_pos (same : ∀ item, kind (change item) = kind item)
    (at_index : items[index]? = some item) (of_kind : kind item = true) :
    (items.modify index change).filter kind =
      (items.filter kind).modify (rank kind items index) change := by
  rw [modify_of_getElem? at_index, modify_of_getElem? (getElem?_rank at_index of_kind),
    filter_set_of_pos at_index of_kind ((same item).trans of_kind)]

theorem filter_modify_of_neg (same : ∀ item, kind (change item) = kind item)
    (at_index : items[index]? = some item) (not_of_kind : kind item = false) :
    (items.modify index change).filter kind = items.filter kind := by
  rw [modify_of_getElem? at_index,
    filter_set_of_neg at_index not_of_kind ((same item).trans not_of_kind)]

/-- Lists that differ in items of other kinds only have the same items of the kind. -/
theorem filter_eq_of_getElem? (same_length : items.length = other.length)
    (same : ∀ (index : ℕ) (first second : α), items[index]? = some first → other[index]? = some second →
      first = second ∨ (kind first = false ∧ kind second = false)) :
    items.filter kind = other.filter kind := by
  induction items generalizing other with
  | nil =>
      obtain rfl := List.eq_nil_of_length_eq_zero same_length.symm
      rfl
  | cons first items ih =>
      cases other with
      | nil => cases same_length
      | cons second other =>
          have rest := ih (Nat.succ.inj same_length) fun index => same (index + 1)
          obtain rfl | ⟨first_out, second_out⟩ := same 0 first second rfl rfl
          · rw [List.filter_cons, List.filter_cons, rest]
          · rw [List.filter_cons, List.filter_cons, rest]
            simp [first_out, second_out]

end ListUpdate
