import Mathlib

/-!
# Greedy cutting of a list into windows

A cutter takes at most `width` elements at a time.  A list longer than the window is cut after the
last element of the first break class that occurs in the window, or after the whole window.  The
elements of the skip class right after a cut are discarded before the next window starts.
-/

namespace WindowCut

variable {α : Type*}

/-! ## The cut point of one window -/

/-- Number of elements up to and including the last match. -/
def cutAfterLast (matching : α → Bool) (window : List α) : Option Nat :=
  (window.reverse.findIdx? matching).map (window.length - ·)

theorem cutAfterLast_eq_none {matching : α → Bool} {window : List α}
    (unmatched : ∀ symbol ∈ window, matching symbol = false) :
    cutAfterLast matching window = none := by
  simpa [cutAfterLast, List.findIdx?_eq_none_iff] using unmatched

theorem cutAfterLast_append_cons {matching : α → Bool} (before : List α) {symbol : α}
    {after : List α} (matched : matching symbol = true)
    (unmatched : ∀ other ∈ after, matching other = false) :
    cutAfterLast matching (before ++ symbol :: after) = some (before.length + 1) := by
  have later : after.reverse.findIdx? matching = none := by
    simpa [List.findIdx?_eq_none_iff] using unmatched
  have found : (before ++ symbol :: after).reverse.findIdx? matching = some after.length := by
    simp [List.findIdx?_append, later, List.findIdx?_cons, matched]
  simp only [cutAfterLast, found, Option.map_some, List.length_append, List.length_cons]
  congr 1
  omega

/-- A window either has no match or splits at its last one. -/
theorem exists_last_match (matching : α → Bool) (window : List α) :
    (∀ symbol ∈ window, matching symbol = false) ∨
      ∃ before symbol after, window = before ++ symbol :: after ∧ matching symbol = true ∧
        ∀ other ∈ after, matching other = false := by
  induction window with
  | nil => simp
  | cons symbol window ih =>
      rcases ih with unmatched | ⟨before, last, after, rfl, matched, unmatched⟩
      · cases matches_head : matching symbol with
        | true => exact Or.inr ⟨[], symbol, window, rfl, matches_head, unmatched⟩
        | false => exact Or.inl (by simpa [matches_head] using unmatched)
      · exact Or.inr ⟨symbol :: before, last, after, rfl, matched, unmatched⟩

/-- A cut point lies in the window, after at least one element. -/
theorem cutAfterLast_bounds {matching : α → Bool} {window : List α} {point : Nat}
    (found : cutAfterLast matching window = some point) : 0 < point ∧ point ≤ window.length := by
  rcases exists_last_match matching window with
    unmatched | ⟨before, symbol, after, rfl, matched, unmatched⟩
  · simp [cutAfterLast_eq_none unmatched] at found
  · rw [cutAfterLast_append_cons before matched unmatched] at found
    obtain rfl := Option.some.inj found
    simp

/-- A list that stops at the start of a line. -/
def AtLineStart (newline : α → Bool) (before : List α) : Prop :=
  before = [] ∨ ∃ front last, before = front ++ [last] ∧ newline last = true

/-- The parameters of a greedy cut. -/
structure Cutter (α : Type*) where
  /-- Most elements in one window. -/
  width : Nat
  /-- A window holds at least one element. -/
  width_pos : 0 < width
  /-- Classes of elements to break after, in order of preference. -/
  breaks : List (α → Bool)
  /-- Elements discarded right after a cut. -/
  skip : α → Bool

namespace Cutter

variable (cutter : Cutter α)

/-- Where a full window is cut. -/
def point (window : List α) : Nat :=
  (cutter.breaks.findSome? fun matching => cutAfterLast matching window).getD window.length

theorem point_bounds {window : List α} (nonempty : window ≠ []) :
    0 < cutter.point window ∧ cutter.point window ≤ window.length := by
  have length_pos := List.length_pos_iff.mpr nonempty
  unfold point
  cases found : cutter.breaks.findSome? fun matching => cutAfterLast matching window with
  | none => simpa using length_pos
  | some chosen =>
      obtain ⟨matching, _, selected⟩ := List.exists_of_findSome?_eq_some found
      exact cutAfterLast_bounds selected

/-! ## Cutting a whole list -/

/-- The piece cut off a long list. -/
def head (symbols : List α) : List α :=
  symbols.take (cutter.point (symbols.take cutter.width))

/-- What follows the piece cut off a long list. -/
def tail (symbols : List α) : List α :=
  symbols.drop (cutter.point (symbols.take cutter.width))

/-- Where the next window starts. -/
def remainder (symbols : List α) : List α := (cutter.tail symbols).dropWhile cutter.skip

theorem head_append_tail (symbols : List α) :
    cutter.head symbols ++ cutter.tail symbols = symbols :=
  List.take_append_drop _ symbols

/-- A turn splits a list into a piece, skipped elements and the remainder. -/
theorem turn_eq (symbols : List α) :
    cutter.head symbols ++ (cutter.tail symbols).takeWhile cutter.skip ++
      cutter.remainder symbols = symbols := by
  rw [remainder, List.append_assoc, List.takeWhile_append_dropWhile, head_append_tail]

theorem point_window_bounds {symbols : List α} (long : cutter.width < symbols.length) :
    0 < cutter.point (symbols.take cutter.width) ∧
      cutter.point (symbols.take cutter.width) ≤ cutter.width := by
  have window_ne : symbols.take cutter.width ≠ [] := by
    have width_pos := cutter.width_pos
    intro empty
    have := congrArg List.length empty
    simp only [List.length_take, List.length_nil] at this
    omega
  have bounds := cutter.point_bounds window_ne
  rw [List.length_take] at bounds
  omega

theorem head_length_le {symbols : List α} (long : cutter.width < symbols.length) :
    (cutter.head symbols).length ≤ cutter.width := by
  have bounds := cutter.point_window_bounds long
  simp only [head, List.length_take]
  omega

/-- Every turn consumes part of the list. -/
theorem remainder_shorter {symbols : List α} (long : cutter.width < symbols.length) :
    (cutter.remainder symbols).length < symbols.length := by
  have bounds := cutter.point_window_bounds long
  have suffix := (List.dropWhile_suffix cutter.skip (l := cutter.tail symbols)).length_le
  simp only [remainder, tail, List.length_drop] at suffix ⊢
  omega

/-- Induction along the turns of the cut. -/
theorem turn_induction {motive : List α → Prop}
    (short : ∀ symbols, symbols.length ≤ cutter.width → motive symbols)
    (long : ∀ symbols, cutter.width < symbols.length → motive (cutter.remainder symbols) →
      motive symbols) (symbols : List α) : motive symbols := by
  induction size : symbols.length using Nat.strongRecOn generalizing symbols with
  | ind size ih =>
      rcases Nat.lt_or_ge cutter.width symbols.length with is_long | is_short
      · exact long symbols is_long
          (ih _ (size ▸ cutter.remainder_shorter is_long) (cutter.remainder symbols) rfl)
      · exact short symbols is_short

/-- The pieces of the cut, each with the elements discarded after it. -/
def cut (symbols : List α) : List (List α × List α) :=
  if _ : cutter.width < symbols.length then
    (cutter.head symbols, (cutter.tail symbols).takeWhile cutter.skip) ::
      cut (cutter.remainder symbols)
  else if symbols.isEmpty then
    []
  else
    [(symbols, [])]
termination_by symbols.length
decreasing_by exact cutter.remainder_shorter ‹_›

/-- The windows in which a cut point is searched. -/
def windows (symbols : List α) : List (List α) :=
  if _ : cutter.width < symbols.length then
    symbols.take cutter.width :: windows (cutter.remainder symbols)
  else
    []
termination_by symbols.length
decreasing_by exact cutter.remainder_shorter ‹_›

/-- The pieces of the cut. -/
def pieces (symbols : List α) : List (List α) := (cutter.cut symbols).map Prod.fst

theorem cut_of_long {symbols : List α} (long : cutter.width < symbols.length) :
    cutter.cut symbols =
      (cutter.head symbols, (cutter.tail symbols).takeWhile cutter.skip) ::
        cutter.cut (cutter.remainder symbols) := by
  rw [cut, dif_pos long]

theorem cut_of_short {symbols : List α} (short : symbols.length ≤ cutter.width) :
    cutter.cut symbols = if symbols.isEmpty then [] else [(symbols, [])] := by
  rw [cut, dif_neg (Nat.not_lt.mpr short)]

theorem windows_of_long {symbols : List α} (long : cutter.width < symbols.length) :
    cutter.windows symbols =
      symbols.take cutter.width :: cutter.windows (cutter.remainder symbols) := by
  rw [windows, dif_pos long]

theorem windows_of_short {symbols : List α} (short : symbols.length ≤ cutter.width) :
    cutter.windows symbols = [] := by
  rw [windows, dif_neg (Nat.not_lt.mpr short)]

theorem pieces_of_long {symbols : List α} (long : cutter.width < symbols.length) :
    cutter.pieces symbols = cutter.head symbols :: cutter.pieces (cutter.remainder symbols) := by
  simp [pieces, cutter.cut_of_long long]

theorem pieces_of_short {symbols : List α} (short : symbols.length ≤ cutter.width) :
    cutter.pieces symbols = if symbols.isEmpty then [] else [symbols] := by
  rw [pieces, cutter.cut_of_short short]
  split <;> rfl

/-- Pieces and discarded elements alternate and make up the whole list. -/
theorem flatten_cut (symbols : List α) :
    ((cutter.cut symbols).map fun piece => piece.1 ++ piece.2).flatten = symbols := by
  induction symbols using cutter.turn_induction with
  | short symbols short =>
      rw [cutter.cut_of_short short]
      split
      · rename_i empty
        simp [List.isEmpty_iff.mp empty]
      · simp
  | long symbols long ih =>
      rw [cutter.cut_of_long long, List.map_cons, List.flatten_cons, ih, turn_eq]

/-- Every piece fits its window. -/
theorem length_le_of_mem_pieces (symbols : List α) :
    ∀ piece ∈ cutter.pieces symbols, piece.length ≤ cutter.width := by
  induction symbols using cutter.turn_induction with
  | short symbols short =>
      rw [cutter.pieces_of_short short]
      split
      · simp
      · simpa using short
  | long symbols long ih =>
      rw [cutter.pieces_of_long long]
      intro piece member
      rcases List.mem_cons.mp member with rfl | later
      · exact cutter.head_length_le long
      · exact ih piece later

/-- Windows show elements of the list only. -/
theorem mem_of_mem_windows (symbols : List α) :
    ∀ window ∈ cutter.windows symbols, ∀ symbol ∈ window, symbol ∈ symbols := by
  induction symbols using cutter.turn_induction with
  | short symbols short => simp [cutter.windows_of_short short]
  | long symbols long ih =>
      rw [cutter.windows_of_long long]
      intro window member symbol shown
      rcases List.mem_cons.mp member with rfl | later
      · exact List.mem_of_mem_take shown
      · have remains := ih window later symbol shown
        exact List.mem_of_mem_drop ((List.dropWhile_suffix cutter.skip).subset remains)

/-- Only elements of the skip class are discarded. -/
theorem skip_of_mem_cut (symbols : List α) :
    ∀ piece ∈ cutter.cut symbols, ∀ symbol ∈ piece.2, cutter.skip symbol = true := by
  induction symbols using cutter.turn_induction with
  | short symbols short =>
      rw [cutter.cut_of_short short]
      split
      · simp
      · simp
  | long symbols long ih =>
      rw [cutter.cut_of_long long]
      intro piece member symbol discarded
      rcases List.mem_cons.mp member with rfl | later
      · exact List.mem_takeWhile_imp discarded
      · exact ih piece later symbol discarded

private theorem filter_flatten_fst {seen : α → Bool} {parts : List (List α × List α)}
    (hidden : ∀ part ∈ parts, ∀ symbol ∈ part.2, seen symbol = false) :
    (parts.map Prod.fst).flatten.filter seen =
      (parts.map fun part => part.1 ++ part.2).flatten.filter seen := by
  induction parts with
  | nil => rfl
  | cons part parts ih =>
      have part_hidden : part.2.filter seen = [] := by
        simpa [List.filter_eq_nil_iff] using hidden part List.mem_cons_self
      have parts_hidden := ih fun later member => hidden later (List.mem_cons_of_mem part member)
      simp only [List.map_cons, List.flatten_cons, List.filter_append, part_hidden, parts_hidden,
        List.append_nil]

/-- What the skip class does not hide survives the cut, in order. -/
theorem filter_flatten_pieces {seen : α → Bool}
    (hidden : ∀ symbol, cutter.skip symbol = true → seen symbol = false) (symbols : List α) :
    (cutter.pieces symbols).flatten.filter seen = symbols.filter seen := by
  have discarded_hidden : ∀ piece ∈ cutter.cut symbols, ∀ symbol ∈ piece.2, seen symbol = false :=
    fun piece member symbol discarded =>
      hidden symbol (cutter.skip_of_mem_cut symbols piece member symbol discarded)
  rw [pieces, filter_flatten_fst discarded_hidden, flatten_cut]

/-! ## Positions in the list -/

/-- What some entries of a cut were cut from. -/
def joined (parts : List (List α × List α)) : List α :=
  (parts.map fun part => part.1 ++ part.2).flatten

@[simp] theorem joined_nil : joined ([] : List (List α × List α)) = [] := rfl

@[simp] theorem joined_cons (part : List α × List α) (parts : List (List α × List α)) :
    joined (part :: parts) = part.1 ++ part.2 ++ joined parts := by
  simp [joined]

@[simp] theorem joined_append (front back : List (List α × List α)) :
    joined (front ++ back) = joined front ++ joined back := by
  simp [joined]

@[simp] theorem joined_cut (symbols : List α) : joined (cutter.cut symbols) = symbols :=
  cutter.flatten_cut symbols

theorem cut_eq_nil_iff (symbols : List α) : cutter.cut symbols = [] ↔ symbols = [] := by
  constructor
  · intro empty
    rw [← cutter.joined_cut symbols, empty, joined_nil]
  · rintro rfl
    rw [cutter.cut_of_short (Nat.zero_le _)]
    rfl

/-- From any entry on, a cut is the cut of what is left there. -/
theorem cut_joined_of_append {symbols : List α} {earlier later : List (List α × List α)}
    (cut_eq : cutter.cut symbols = earlier ++ later) : cutter.cut (joined later) = later := by
  induction symbols using cutter.turn_induction generalizing earlier with
  | short symbols short =>
      cases earlier with
      | nil =>
          rw [List.nil_append] at cut_eq
          rw [← cut_eq, joined_cut]
      | cons part earlier =>
          have later_nil : later = [] := by
            rw [cutter.cut_of_short short] at cut_eq
            split at cut_eq <;> simp_all
          rw [later_nil, joined_nil, cut_eq_nil_iff]
  | long symbols long ih =>
      cases earlier with
      | nil =>
          rw [List.nil_append] at cut_eq
          rw [← cut_eq, joined_cut]
      | cons part earlier =>
          rw [cutter.cut_of_long long, List.cons_append, List.cons.injEq] at cut_eq
          exact ih cut_eq.2

/-- The first entry of a cut: all of a short list, or the head of a long one. -/
theorem cut_cons_cases {symbols : List α} {part : List α × List α}
    {later : List (List α × List α)} (cut_eq : cutter.cut symbols = part :: later) :
    (symbols.length ≤ cutter.width ∧ part = (symbols, []) ∧ later = []) ∨
      (cutter.width < symbols.length ∧ part.1 = cutter.head symbols ∧
        later = cutter.cut (cutter.remainder symbols)) := by
  rcases Nat.lt_or_ge cutter.width symbols.length with long | short
  · rw [cutter.cut_of_long long, List.cons.injEq] at cut_eq
    exact Or.inr ⟨long, by rw [← cut_eq.1], cut_eq.2.symm⟩
  · rw [cutter.cut_of_short short] at cut_eq
    split at cut_eq
    · simp at cut_eq
    · rw [List.cons.injEq] at cut_eq
      exact Or.inl ⟨short, cut_eq.1.symm, cut_eq.2.symm⟩

/-- Elements are discarded after the last piece only when nothing else was left to cut. -/
theorem skipped_of_last {symbols : List α} {earlier : List (List α × List α)}
    {part : List α × List α} (cut_eq : cutter.cut symbols = earlier ++ [part]) :
    part.2 = [] ∨ cutter.width < (part.1 ++ part.2).length := by
  have last_cut := cutter.cut_joined_of_append cut_eq
  rcases cutter.cut_cons_cases last_cut with ⟨-, part_eq, -⟩ | ⟨long, -, -⟩
  · exact Or.inl (congrArg Prod.snd part_eq)
  · exact Or.inr (by simpa using long)

/-! ## Lines that fit the window -/

/-- A full window with a first-class break is cut right after its last one. -/
theorem getElem?_point {newline : α → Bool} {others : List (α → Bool)}
    (breaks_eq : cutter.breaks = newline :: others) {window : List α}
    (broken : ∃ symbol ∈ window, newline symbol = true) :
    ∃ last, window[cutter.point window - 1]? = some last ∧ newline last = true := by
  rcases exists_last_match newline window with
    unmatched | ⟨before, last, after, rfl, matched, unmatched⟩
  · obtain ⟨symbol, member, matched⟩ := broken
    simp [unmatched symbol member] at matched
  · have point_eq : cutter.point (before ++ last :: after) = before.length + 1 := by
      simp [point, breaks_eq, cutAfterLast_append_cons before matched unmatched]
    exact ⟨last, by simp [point_eq], matched⟩

private theorem visible_dropWhile {skip : α → Bool} {body : List α}
    (visible : ∃ symbol ∈ body, skip symbol = false) :
    ∃ symbol ∈ body.dropWhile skip, skip symbol = false := by
  obtain ⟨symbol, member, shown⟩ := visible
  rw [← List.takeWhile_append_dropWhile (p := skip) (l := body)] at member
  rcases List.mem_append.mp member with taken | dropped
  · simp [List.mem_takeWhile_imp taken] at shown
  · exact ⟨symbol, dropped, shown⟩

private theorem dropWhile_append_of_stop {skip : α → Bool} {front : List α}
    (stops : ∃ symbol ∈ front, skip symbol = false) (back : List α) :
    (front ++ back).dropWhile skip = front.dropWhile skip ++ back := by
  obtain ⟨symbol, member, -⟩ := visible_dropWhile stops
  have nonempty : ¬ (front.dropWhile skip).isEmpty = true := by
    rw [List.isEmpty_iff]
    exact List.ne_nil_of_mem member
  rw [List.dropWhile_append, if_neg nonempty]

private theorem atLineStart_dropWhile {newline skip : α → Bool} {front : List α} {last : α}
    (line_end : newline last = true) (kept : skip last = false) :
    AtLineStart newline ((front ++ [last]).dropWhile skip) := by
  induction front with
  | nil => exact Or.inr ⟨[], last, by simp [kept], line_end⟩
  | cons symbol front ih =>
      cases skipped : skip symbol with
      | false => exact Or.inr ⟨symbol :: front, last, by simp [skipped], line_end⟩
      | true => simpa [skipped] using ih

/-- A line stands whole in one entry of a cut, less skipped elements at its start, and at its own
place in the list. -/
def LineInCut (newline skip : α → Bool) (parts : List (List α × List α))
    (before body ender after : List α) : Prop :=
  ∃ earlier part later front skipped kept back, parts = earlier ++ part :: later ∧
    body = skipped ++ kept ∧ (∀ symbol ∈ skipped, skip symbol = true) ∧
    part.1 = front ++ (kept ++ ender) ++ back ∧ AtLineStart newline front ∧ back <+: after ∧
    joined earlier ++ front = before ++ skipped

theorem LineInCut.here {newline skip : α → Bool} {before body ender after back discarded : List α}
    (starts : AtLineStart newline before) (back_starts : back <+: after)
    (later : List (List α × List α)) :
    LineInCut newline skip ((before ++ (body ++ ender) ++ back, discarded) :: later) before body
      ender after :=
  ⟨[], (before ++ (body ++ ender) ++ back, discarded), later, before, [], body, back, rfl, rfl,
    by simp, rfl, starts, back_starts, by simp⟩

/-- A line found behind the first entry, which may have taken skipped elements from its start. -/
theorem LineInCut.cons {newline skip : α → Bool} {parts : List (List α × List α)}
    {left kept before body ender after taken : List α} {part : List α × List α}
    (found : LineInCut newline skip parts left kept ender after) (body_eq : body = taken ++ kept)
    (all_taken : ∀ symbol ∈ taken, skip symbol = true)
    (place : part.1 ++ part.2 ++ left = before ++ taken) :
    LineInCut newline skip (part :: parts) before body ender after := by
  obtain ⟨earlier, entry, later, front, skipped, rest, back, rfl, rfl, all_skipped, entry_eq,
    front_starts, back_starts, place_left⟩ := found
  refine ⟨part :: earlier, entry, later, front, taken ++ skipped, rest, back, rfl, ?_, ?_, entry_eq,
    front_starts, back_starts, ?_⟩
  · rw [body_eq, List.append_assoc]
  · exact List.forall_mem_append.mpr ⟨all_taken, all_skipped⟩
  · rw [joined_cons, List.append_assoc, place_left, ← List.append_assoc, place, List.append_assoc]

/-- What follows a list with its matches trimmed off the end is a match. -/
private theorem matches_of_getElem?_rdropWhile {matching : α → Bool} {symbols : List α} {symbol : α}
    (next : symbols[(symbols.rdropWhile matching).length]? = some symbol) :
    matching symbol = true := by
  generalize stop_eq : (symbols.rdropWhile matching).length = stop at next
  have parts_eq : symbols = symbols.rdropWhile matching ++ symbols.rtakeWhile matching :=
    List.rdropWhile_append_rtakeWhile.symm
  rw [parts_eq, List.getElem?_append_right (by omega)] at next
  exact List.mem_rtakeWhile_imp (List.mem_of_getElem? next)

section Lines

variable {newline : α → Bool} {others : List (α → Bool)}
  (breaks_eq : cutter.breaks = newline :: others)
  (newline_kept : ∀ symbol, newline symbol = true → cutter.skip symbol = false)

include newline_kept in
/-- A cut that falls before a line leaves it at the start of a line. -/
private theorem remainder_of_inside {before rest : List α} (starts : AtLineStart newline before)
    (inside : cutter.point ((before ++ rest).take cutter.width) < before.length) :
    ∃ left, AtLineStart newline left ∧ cutter.remainder (before ++ rest) = left ++ rest := by
  obtain rfl | ⟨front, last, rfl, line_end⟩ := starts
  · simp at inside
  · generalize point_eq : cutter.point ((front ++ [last] ++ rest).take cutter.width) = point at inside
    rw [List.length_append, List.length_singleton, Nat.lt_succ_iff] at inside
    have kept : cutter.skip last = false := newline_kept last line_end
    have tail_eq : cutter.tail (front ++ [last] ++ rest) = front.drop point ++ [last] ++ rest := by
      rw [tail, point_eq, List.append_assoc, List.drop_append_of_le_length inside,
        List.append_assoc]
    refine ⟨(front.drop point ++ [last]).dropWhile cutter.skip,
      atLineStart_dropWhile line_end kept, ?_⟩
    rw [remainder, tail_eq, dropWhile_append_of_stop ⟨last, by simp, kept⟩]

/-- A cut right before a line takes at most skipped elements from its start. -/
private theorem remainder_of_stop {before body rest : List α}
    (stops : cutter.point ((before ++ (body ++ rest)).take cutter.width) = before.length)
    (visible : ∃ symbol ∈ body, cutter.skip symbol = false) :
    cutter.remainder (before ++ (body ++ rest)) = body.dropWhile cutter.skip ++ rest := by
  rw [remainder, tail, stops, List.drop_left, dropWhile_append_of_stop visible]

include breaks_eq

/-- A cut that reaches into a short line takes the whole line. -/
private theorem line_le_point {before body ender after : List α}
    (starts : AtLineStart newline before) (unbroken : ∀ symbol ∈ body, newline symbol = false)
    (ends : (∃ last, ender = [last] ∧ newline last = true) ∨ ender = [] ∧ after = [])
    (fits : (body ++ ender).length ≤ cutter.width)
    (long : cutter.width < (before ++ (body ++ ender) ++ after).length)
    (reaches : before.length <
      cutter.point ((before ++ (body ++ ender) ++ after).take cutter.width)) :
    before.length + (body ++ ender).length ≤
      cutter.point ((before ++ (body ++ ender) ++ after).take cutter.width) := by
  have bounds := cutter.point_window_bounds long
  have broken : ∃ symbol ∈ (before ++ (body ++ ender) ++ after).take cutter.width,
      newline symbol = true := by
    rcases starts with rfl | ⟨front, last, rfl, line_end⟩
    · rcases ends with ⟨last, rfl, line_end⟩ | ⟨rfl, rfl⟩
      · refine ⟨last, ?_, line_end⟩
        rw [List.nil_append, List.take_append, List.take_of_length_le fits]
        simp
      · simp at long fits
        omega
    · refine ⟨last, ?_, line_end⟩
      rw [List.append_assoc, List.take_append, List.take_of_length_le (by omega)]
      simp
  obtain ⟨last, last_at, line_end⟩ := cutter.getElem?_point breaks_eq broken
  generalize point_eq :
    cutter.point ((before ++ (body ++ ender) ++ after).take cutter.width) = point at *
  rw [List.getElem?_take_of_lt (by omega), List.append_assoc, List.append_assoc,
    List.getElem?_append_right (by omega)] at last_at
  have beyond_body : body.length ≤ point - 1 - before.length := by
    by_contra inside
    rw [List.getElem?_append_left (by omega)] at last_at
    have := unbroken last (List.mem_of_getElem? last_at)
    simp [line_end] at this
  rcases ends with ⟨_, rfl, _⟩ | ⟨rfl, rfl⟩
  · simp only [List.length_append, List.length_singleton]
    omega
  · simp only [List.append_nil] at last_at
    have := (List.getElem?_eq_some_iff.mp last_at).1
    omega

/-- A long list that is not cut after a newline has none in its first window. -/
private theorem newline_ends_head {symbols : List α} (long : cutter.width < symbols.length) :
    (∃ front last, cutter.head symbols = front ++ [last] ∧ newline last = true) ∨
      ∀ symbol ∈ symbols.take cutter.width, newline symbol = false := by
  by_cases broken : ∃ symbol ∈ symbols.take cutter.width, newline symbol = true
  · obtain ⟨last, last_at, line_end⟩ := cutter.getElem?_point breaks_eq broken
    have bounds := cutter.point_window_bounds long
    refine Or.inl ⟨symbols.take (cutter.point (symbols.take cutter.width) - 1), last, ?_, line_end⟩
    rw [List.getElem?_take_of_lt (by omega)] at last_at
    obtain ⟨in_range, last_eq⟩ := List.getElem?_eq_some_iff.mp last_at
    rw [head, ← last_eq, List.take_append_getElem]
    congr 1
    omega
  · right
    intro symbol member
    by_contra newline_mem
    exact broken ⟨symbol, member, by simpa using newline_mem⟩

/-- A piece that ends before anything but a newline was cut from a window without one. -/
private theorem solid_window_of_next {rest : List α} {part : List α × List α}
    {later : List (List α × List α)} (cut_eq : cutter.cut rest = part :: later) {next : α}
    (next_at : rest[(part.1.rdropWhile newline).length]? = some next)
    (next_kept : newline next = false) :
    cutter.width < rest.length ∧ (part.1.rdropWhile newline).length ≤ cutter.width ∧
      ∀ symbol ∈ rest.take cutter.width, newline symbol = false := by
  have rest_eq := cutter.joined_cut rest
  rw [cut_eq, joined_cons, List.append_assoc] at rest_eq
  have shrunk := (List.rdropWhile_prefix newline part.1).length_le
  -- no newline was trimmed off the piece
  have untrimmed : (part.1.rdropWhile newline).length = part.1.length := by
    by_contra trimmed
    rw [← rest_eq, List.getElem?_append_left (by omega)] at next_at
    simp [matches_of_getElem?_rdropWhile next_at] at next_kept
  rcases cutter.cut_cons_cases cut_eq with ⟨-, part_eq, -⟩ | ⟨long, head_eq, -⟩
  · -- nothing is left after the last piece
    rw [untrimmed, part_eq] at next_at
    simp at next_at
  · have head_fits := cutter.head_length_le long
    rw [← head_eq] at head_fits
    refine ⟨long, shrunk.trans head_fits, ?_⟩
    rcases cutter.newline_ends_head breaks_eq long with ⟨front, last, ends_eq, line_end⟩ | solid
    · rw [head_eq, ends_eq, List.rdropWhile_concat_pos _ _ _ line_end] at untrimmed
      have shorter := (List.rdropWhile_prefix newline front).length_le
      rw [List.length_append, List.length_singleton] at untrimmed
      omega
    · exact solid

/-- A piece ends inside a line only when the line does not fit the window. -/
theorem width_lt_of_cut_inside {before body ender after : List α}
    (starts : AtLineStart newline before) (unbroken : ∀ symbol ∈ body, newline symbol = false)
    (ends : (∃ last, ender = [last] ∧ newline last = true) ∨ ender = [] ∧ after = [])
    {earlier : List (List α × List α)} {part : List α × List α} {later : List (List α × List α)}
    (cut_eq : cutter.cut (before ++ (body ++ ender) ++ after) = earlier ++ part :: later)
    (begun : before.length < (joined earlier ++ part.1.rdropWhile newline).length)
    (unfinished : (joined earlier ++ part.1.rdropWhile newline).length <
      (before ++ body).length) :
    cutter.width < (body ++ ender).length := by
  have symbols_eq := cutter.joined_cut (before ++ (body ++ ender) ++ after)
  rw [cut_eq, joined_append] at symbols_eq
  simp only [List.length_append] at begun unfinished ⊢
  -- the list read at a place of what was left to cut
  have at_place (place : ℕ) : (joined (part :: later))[place]? =
      (before ++ (body ++ ender) ++ after)[(joined earlier).length + place]? := by
    rw [← symbols_eq, List.getElem?_append_right (by omega), Nat.add_sub_cancel_left]
  obtain ⟨next, next_at, next_kept⟩ : ∃ next,
      (joined (part :: later))[(part.1.rdropWhile newline).length]? = some next ∧
        newline next = false := by
    rw [at_place, List.append_assoc, List.append_assoc, List.getElem?_append_right (by omega),
      List.getElem?_append_left (by omega), List.getElem?_eq_getElem (by omega)]
    exact ⟨_, rfl, unbroken _ (List.getElem_mem _)⟩
  obtain ⟨long, piece_fits, solid⟩ := cutter.solid_window_of_next breaks_eq
    (cutter.cut_joined_of_append cut_eq) next_at next_kept
  have no_newline (place : ℕ) (within : place < cutter.width) {symbol : α}
      (symbol_at : (joined (part :: later))[place]? = some symbol) : newline symbol = false := by
    rw [← List.getElem?_take_of_lt within] at symbol_at
    exact solid symbol (List.mem_of_getElem? symbol_at)
  -- the window starts in the line, for the newline before it is not in the window
  have starts_inside : before.length ≤ (joined earlier).length := by
    obtain rfl | ⟨front, last, rfl, line_end⟩ := starts
    · exact Nat.zero_le _
    · by_contra earlier_start
      rw [List.length_append, List.length_singleton] at begun earlier_start
      have last_at : (joined (part :: later))[front.length - (joined earlier).length]? =
          some last := by
        rw [at_place, Nat.add_sub_cancel' (by omega)]
        simp
      have := no_newline _ (by omega) last_at
      simp [line_end] at this
  -- and it ends before the newline of the line, or before the end of the list
  rcases ends with ⟨last, rfl, line_end⟩ | ⟨rfl, rfl⟩
  · by_contra fits
    rw [List.length_singleton] at fits
    have last_at : (joined (part :: later))[before.length + body.length -
        (joined earlier).length]? = some last := by
      rw [at_place, Nat.add_sub_cancel' (by omega)]
      simp
    have := no_newline _ (by omega) last_at
    simp [line_end] at this
  · have total := congrArg List.length symbols_eq
    simp only [List.length_append, List.length_nil] at total ⊢
    omega

include newline_kept

/-- A line that fits the window is never cut: it ends up whole in one piece, at its own place. -/
theorem line_in_cut {before body ender after : List α}
    (starts : AtLineStart newline before) (unbroken : ∀ symbol ∈ body, newline symbol = false)
    (visible : ∃ symbol ∈ body, cutter.skip symbol = false)
    (ends : (∃ last, ender = [last] ∧ newline last = true) ∨ ender = [] ∧ after = [])
    (fits : (body ++ ender).length ≤ cutter.width) :
    LineInCut newline cutter.skip (cutter.cut (before ++ (body ++ ender) ++ after)) before body
      ender after := by
  generalize symbols_eq : before ++ (body ++ ender) ++ after = symbols
  induction symbols using cutter.turn_induction generalizing before body with
  | short symbols short =>
      subst symbols_eq
      obtain ⟨symbol, member, _⟩ := visible
      have nonempty : (before ++ (body ++ ender) ++ after).isEmpty = false := by
        cases body with
        | nil => simp at member
        | cons head body => cases before <;> simp
      rw [cutter.cut_of_short short, nonempty]
      exact .here starts (List.prefix_refl after) []
  | long symbols long ih =>
      subst symbols_eq
      have turn := cutter.turn_eq (before ++ (body ++ ender) ++ after)
      have regrouped : before ++ (body ++ ender) ++ after = before ++ (body ++ (ender ++ after)) := by
        simp only [List.append_assoc]
      rw [cutter.cut_of_long long]
      rcases Nat.lt_trichotomy
        (cutter.point ((before ++ (body ++ ender) ++ after).take cutter.width)) before.length with
        inside | stops | reaches
      · rw [regrouped] at inside
        obtain ⟨left, left_starts, remainder_eq⟩ :=
          cutter.remainder_of_inside newline_kept starts inside
        rw [← regrouped] at remainder_eq
        have found := ih left_starts unbroken visible fits
          (by rw [remainder_eq]; simp only [List.append_assoc])
        rw [remainder_eq, ← List.append_assoc] at turn
        refine found.cons (List.nil_append body).symm (by simp) ?_
        rw [List.append_nil]
        exact List.append_cancel_right (turn.trans regrouped)
      · rw [regrouped] at stops
        have remainder_eq := cutter.remainder_of_stop stops visible
        rw [← regrouped] at remainder_eq
        have suffix := List.dropWhile_suffix cutter.skip (l := body)
        have fits_still : (body.dropWhile cutter.skip ++ ender).length ≤ cutter.width := by
          have shorter := suffix.length_le
          simp only [List.length_append] at fits ⊢
          omega
        have found := ih (Or.inl rfl) (fun symbol member => unbroken symbol (suffix.subset member))
          (visible_dropWhile visible) fits_still
          (by rw [remainder_eq]; simp only [List.nil_append, List.append_assoc])
        refine found.cons List.takeWhile_append_dropWhile.symm
          (fun symbol member => List.mem_takeWhile_imp member) ?_
        have same_rest : before ++ body.takeWhile cutter.skip ++
            (body.dropWhile cutter.skip ++ (ender ++ after)) =
              before ++ (body ++ ender) ++ after := by
          rw [regrouped, List.append_assoc, ← List.append_assoc (body.takeWhile cutter.skip),
            List.takeWhile_append_dropWhile]
        rw [remainder_eq] at turn
        rw [List.append_nil]
        exact List.append_cancel_right (turn.trans same_rest.symm)
      · have whole := cutter.line_le_point breaks_eq starts unbroken ends fits long reaches
        have head_eq : cutter.head (before ++ (body ++ ender) ++ after) =
            before ++ (body ++ ender) ++ after.take
              (cutter.point ((before ++ (body ++ ender) ++ after).take cutter.width) -
                (before ++ (body ++ ender)).length) := by
          rw [head, List.take_append, List.take_of_length_le (by simpa using whole)]
        rw [head_eq]
        exact .here starts (List.take_prefix _ _) _

/-- A line that fits the window is whole in some piece. -/
theorem line_in_piece {before body ender after : List α}
    (starts : AtLineStart newline before) (unbroken : ∀ symbol ∈ body, newline symbol = false)
    (visible : ∃ symbol ∈ body, cutter.skip symbol = false)
    (ends : (∃ last, ender = [last] ∧ newline last = true) ∨ ender = [] ∧ after = [])
    (fits : (body ++ ender).length ≤ cutter.width) :
    ∃ piece ∈ cutter.pieces (before ++ (body ++ ender) ++ after), ∃ front skipped kept back,
      body = skipped ++ kept ∧ (∀ symbol ∈ skipped, cutter.skip symbol = true) ∧
        piece = front ++ (kept ++ ender) ++ back ∧ AtLineStart newline front ∧
          back <+: after := by
  obtain ⟨earlier, part, later, front, skipped, kept, back, cut_eq, body_eq, all_skipped, part_eq,
    front_starts, back_starts, -⟩ :=
    cutter.line_in_cut breaks_eq newline_kept starts unbroken visible ends fits
  refine ⟨part.1, ?_, front, skipped, kept, back, body_eq, all_skipped, part_eq, front_starts,
    back_starts⟩
  rw [pieces, cut_eq]
  simp

end Lines

end Cutter

end WindowCut
