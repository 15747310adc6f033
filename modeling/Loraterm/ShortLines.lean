import Loraterm.SplitPieces

/-!
# Short lines stay whole

A line that fits the limit with its newline is returned as one line of one piece, at most without
its leading blanks.  Only longer lines are cut inside.
-/

namespace Loraterm

open Utf8Text LineSplit WindowCut

/-- The line stands complete in the piece of one part: it starts a line there, less some leading
blanks, it ends with the piece or before a newline, and it is at its own place of the text. -/
def WholeLineAt (parts : List Part) (before line : Text) (index : Nat) : Prop :=
  ∃ part front dropped kept back, parts[index]? = some part ∧
    trimEndMatches isNewline line = dropped ++ kept ∧
    (∀ char ∈ dropped, isBlank char = true) ∧
    part.piece = front ++ kept ++ back ∧ AtLineStart isNewline front ∧
    (back = [] ∨ ∃ rest, back = '\n' :: rest) ∧
    partsText (parts.take index) ++ front = before ++ dropped

/-- Some piece ends strictly inside the line. -/
def CutInside (parts : List Part) (before line : Text) : Prop :=
  ∃ earlier part later, parts = earlier ++ part :: later ∧
    before.length < (partsText earlier ++ part.piece).length ∧
    (partsText earlier ++ part.piece).length < (before ++ trimEndMatches isNewline line).length

/-! ## Trimming -/

/-- Trimming stops at what is no newline. -/
theorem trimEndMatches_append {front : Text} {last : Char} (ends : front.getLast? = some last)
    (kept : isNewline last = false) (back : Text) :
    trimEndMatches isNewline (front ++ back) = front ++ trimEndMatches isNewline back := by
  obtain ⟨front, rfl⟩ := List.getLast?_eq_some_iff.mp ends
  simp only [trimEndMatches, List.rdropWhile, List.reverse_append, List.reverse_singleton,
    List.dropWhile_append]
  split
  · rename_i all_newlines
    simp [kept, List.isEmpty_iff.mp all_newlines]
  · simp

theorem trimEndMatches_line {body ender : Text} (unbroken : ∀ char ∈ body, isNewline char = false)
    (ends : ∀ char ∈ ender, isNewline char = true) :
    trimEndMatches isNewline (body ++ ender) = body := by
  have ender_gone : trimEndMatches isNewline ender = [] := by
    rw [trimEndMatches, List.rdropWhile_eq_nil_iff]
    exact ends
  cases last : body.getLast? with
  | none =>
      rw [List.getLast?_eq_none_iff.mp last, List.nil_append, ender_gone]
  | some char =>
      rw [trimEndMatches_append last (unbroken char (List.mem_of_getLast? last)), ender_gone,
        List.append_nil]

/-- The piece of a part up to the last line that it shows whole. -/
theorem Part.piece_of_entry {part : Part} {front kept rest : Text}
    (entry_eq : part.entry.1 = front ++ kept ++ rest) (nonempty : kept ≠ [])
    (unbroken : ∀ char ∈ kept, isNewline char = false) :
    part.piece = front ++ kept ++ trimEndMatches isNewline rest := by
  have last_at : (front ++ kept).getLast? = some (kept.getLast nonempty) := by
    rw [List.getLast?_append, List.getLast?_eq_some_getLast nonempty, Option.some_or]
  rw [part.piece_eq, entry_eq,
    trimEndMatches_append last_at (unbroken _ (List.getLast_mem nonempty))]

/-- What a piece shows after a line: nothing, or a newline first. -/
theorem trimmed_after_line {ender back : Text}
    (ends : (∃ last, ender = [last] ∧ isNewline last = true) ∨ ender = [])
    (nothing_after : ender = [] → back = []) :
    trimEndMatches isNewline (ender ++ back) = [] ∨
      ∃ rest, trimEndMatches isNewline (ender ++ back) = '\n' :: rest := by
  rcases ends with ⟨last, rfl, line_end⟩ | rfl
  · rw [isNewline_iff.mp line_end, List.singleton_append]
    have trimmed_prefix : trimEndMatches isNewline ('\n' :: back) <+: '\n' :: back :=
      List.rdropWhile_prefix isNewline _
    rcases List.prefix_cons_iff.mp trimmed_prefix with empty | ⟨rest, rest_eq, -⟩
    · exact Or.inl empty
    · exact Or.inr ⟨rest, rest_eq⟩
  · rw [nothing_after rfl]
    exact Or.inl rfl

/-- A line that is not blank keeps a character when blanks are taken from its start. -/
theorem kept_ne_nil {line dropped kept : Text} (visible : ¬ Blank line)
    (body_eq : trimEndMatches isNewline line = dropped ++ kept)
    (all_dropped : ∀ char ∈ dropped, isBlank char = true) : kept ≠ [] := by
  rintro rfl
  apply visible
  rw [← visible_eq_nil_iff, ← visible_trimEndMatches, body_eq, List.append_nil,
    visible_eq_nil_iff]
  exact fun char member => isWhitespace_of_isBlank (all_dropped char member)

/-! ## One line of a text -/

/-- The line at some place: its body, its newline unless it is the last, and what is around it. -/
theorem line_at_place {text : Text} {earlier : List Text} {line : Text} {later : List Text}
    (lines_eq : lines text = earlier ++ line :: later) :
    AtLineStart isNewline earlier.flatten ∧ ∃ body ender, line = body ++ ender ∧
      trimEndMatches isNewline line = body ∧ (∀ char ∈ body, isNewline char = false) ∧
      ((∃ last, ender = [last] ∧ isNewline last = true) ∨ ender = [] ∧ later.flatten = []) ∧
      text = earlier.flatten ++ (body ++ ender) ++ later.flatten := by
  have split : IsSplit isNewline (lines text) := isSplit_splitInclusive text
  rw [lines_eq] at split
  obtain ⟨starts, body, ender, rfl, unbroken, ends⟩ := split.at_piece
  have ender_newlines : ∀ char ∈ ender, isNewline char = true := by
    rcases ends with ⟨last, rfl, line_end⟩ | ⟨rfl, -⟩
    · simpa using line_end
    · simp
  refine ⟨starts, body, ender, rfl, trimEndMatches_line unbroken ender_newlines, unbroken, ?_, ?_⟩
  · exact ends.imp id fun ⟨no_ender, no_later⟩ => ⟨no_ender, by simp [no_later]⟩
  · have flat_eq := flatten_lines text
    rw [lines_eq, List.flatten_append, List.flatten_cons, ← List.append_assoc] at flat_eq
    exact flat_eq.symm

/-- The first part of a line's place decides it: a second place would lie past the line. -/
theorem WholeLineAt.not_before {parts : List Part} {before line : Text} {index other : Nat}
    (visible : ¬ Blank line) (first : WholeLineAt parts before line index)
    (second : WholeLineAt parts before line other) : ¬ index < other := by
  intro earlier
  obtain ⟨part, front, dropped, kept, back, part_at, body_eq, -, piece_eq, -, -, place⟩ := first
  obtain ⟨-, front', dropped', kept', -, -, body_eq', all_dropped', -, -, -, place'⟩ := second
  have kept_pos := List.length_pos_iff.mpr (kept_ne_nil visible body_eq' all_dropped')
  have through : partsText (parts.take (index + 1)) =
      partsText (parts.take index) ++ part.text := by
    rw [List.take_add_one, part_at, Option.toList_some, partsText_append, partsText_singleton]
  have ordered : (partsText (parts.take (index + 1))).length ≤
      (partsText (parts.take other)).length := by
    have split_eq := List.take_append_drop (index + 1) (parts.take other)
    rw [List.take_take, Nat.min_eq_left earlier] at split_eq
    rw [← split_eq, partsText_append, List.length_append]
    exact Nat.le_add_right _ _
  have piece_fits : (front ++ kept).length ≤ part.text.length := by
    simp only [Part.text, piece_eq, List.length_append]
    omega
  have lengths := congrArg List.length place
  have lengths' := congrArg List.length place'
  have bodies := congrArg List.length (body_eq.symm.trans body_eq')
  rw [through] at ordered
  simp only [List.length_append] at lengths lengths' bodies ordered piece_fits
  omega

/-! ## All lines of a text -/

section Split

variable {maxChars : Nat} (positive : 0 < maxChars) {text : Text} {earlier : List Text}
  {line : Text} {later : List Text} (lines_eq : lines text = earlier ++ line :: later)

/-- The parts before and after an entry of the cut. -/
theorem textParts_of_cut {front back : List (Text × Text)} {cut : Text × Text}
    (cut_eq : (textCutter maxChars positive).cut text = front ++ cut :: back) :
    ∃ earlier part later, textParts maxChars positive text = earlier ++ part :: later ∧
      part.entry = cut ∧ partsText earlier = Cutter.joined front := by
  rw [← map_entry_textParts, List.map_eq_append_iff] at cut_eq
  obtain ⟨earlier, rest, parts_eq, rfl, rest_eq⟩ := cut_eq
  obtain ⟨part, later, rfl, entry_eq, -⟩ := List.map_eq_cons_iff.mp rest_eq
  exact ⟨earlier, part, later, parts_eq, entry_eq, partsText_eq_joined earlier⟩

include lines_eq

/-- A line that fits stands whole in some part. -/
theorem exists_wholeLine (visible : ¬ Blank line) (fits : line.length ≤ maxChars) :
    ∃ index, WholeLineAt (textParts maxChars positive text) earlier.flatten line index := by
  obtain ⟨starts, body, ender, rfl, trimmed, unbroken, ends, text_eq⟩ := line_at_place lines_eq
  have shown : ∃ char ∈ body, isBlank char = false := by
    by_contra hidden
    refine kept_ne_nil visible (trimmed.trans (List.append_nil body).symm) ?_ rfl
    intro char member
    by_contra not_blank
    exact hidden ⟨char, member, by simpa using not_blank⟩
  obtain ⟨front_cuts, cut, later_cuts, front, dropped, kept, back, cut_eq, rfl, all_dropped,
    head_eq, front_starts, back_prefix, place⟩ :=
    (textCutter maxChars positive).line_in_cut rfl isNewline_not_isBlank starts unbroken shown
      ends fits
  rw [← text_eq] at cut_eq
  obtain ⟨front_parts, part, later_parts, parts_eq, entry_eq, front_eq⟩ :=
    textParts_of_cut positive cut_eq
  have piece_eq : part.piece = front ++ kept ++ trimEndMatches isNewline (ender ++ back) := by
    refine part.piece_of_entry ?_ (kept_ne_nil visible trimmed all_dropped)
      fun char member => unbroken char (List.mem_append_right dropped member)
    rw [entry_eq, head_eq]
    simp only [List.append_assoc]
  have nothing_after : ender = [] → back = [] := by
    rintro rfl
    have later_nil : later.flatten = [] := by
      rcases ends with ⟨last, no_ender, -⟩ | ⟨-, later_nil⟩
      · cases no_ender
      · exact later_nil
    rw [later_nil] at back_prefix
    exact List.prefix_nil.mp back_prefix
  refine ⟨front_parts.length, part, front, dropped, kept,
    trimEndMatches isNewline (ender ++ back), ?_, trimmed, all_dropped, piece_eq, front_starts,
    trimmed_after_line ?_ nothing_after, ?_⟩
  · rw [parts_eq, List.getElem?_append_right (Nat.le_refl _), Nat.sub_self]
    rfl
  · exact ends.imp id And.left
  · rw [parts_eq, List.take_left, front_eq]
    exact place

/-- Only a line longer than the limit is cut inside. -/
theorem long_of_cutInside
    (inside : CutInside (textParts maxChars positive text) earlier.flatten line) :
    maxChars < line.length := by
  obtain ⟨starts, body, ender, rfl, trimmed, unbroken, ends, text_eq⟩ := line_at_place lines_eq
  obtain ⟨front, part, back, parts_eq, begun, unfinished⟩ := inside
  have cut_eq := map_entry_textParts positive text
  rw [parts_eq, List.map_append, List.map_cons, text_eq] at cut_eq
  rw [partsText_eq_joined, part.piece_eq] at begun unfinished
  rw [trimmed] at unfinished
  exact (textCutter maxChars positive).width_lt_of_cut_inside rfl starts unbroken ends
    cut_eq.symm begun unfinished

end Split

/-- Splitting a text whose white space is ASCII keeps every line that fits the limit with its
newline whole, in one piece only, and cuts longer lines only. -/
theorem short_lines_stay_whole {maxChars : Nat} (positive : 1 ≤ maxChars) {text : Text}
    (ascii : AsciiWhitespace text) :
    ∃ parts, splitIntoCharChunks text maxChars = some (parts.map Part.piece) ∧
      partsText parts = text ∧
      ∀ earlier line later, lines text = earlier ++ line :: later →
        (¬ Blank line → line.length ≤ maxChars →
          ∃! index, WholeLineAt parts earlier.flatten line index) ∧
        (CutInside parts earlier.flatten line → maxChars < line.length) := by
  refine ⟨textParts maxChars positive text, splitIntoCharChunks_eq_textParts positive ascii,
    partsText_textParts positive text, fun earlier line later lines_eq => ⟨?_, ?_⟩⟩
  · intro visible fits
    obtain ⟨index, whole⟩ := exists_wholeLine positive lines_eq visible fits
    refine ⟨index, whole, fun other also => ?_⟩
    have not_before := whole.not_before visible also
    have not_after := also.not_before visible whole
    omega
  · exact long_of_cutInside positive lines_eq

/-- A line that fits after a line that does not. -/
theorem short_lines_stay_whole_sample :
    splitIntoCharChunks "abcdef\n  gh\n".toList 5 =
        some ["abcde".toList, "f".toList, "gh".toList] ∧
      ∃ parts, splitIntoCharChunks "abcdef\n  gh\n".toList 5 = some (parts.map Part.piece) ∧
        ∃! index, WholeLineAt parts "abcdef\n".toList "  gh\n".toList index := by
  refine ⟨by decide +kernel, ?_⟩
  obtain ⟨parts, split_eq, -, line_by_line⟩ :=
    @short_lines_stay_whole 5 (by decide) "abcdef\n  gh\n".toList (by simp [AsciiWhitespace])
  have visible : ¬ Blank "  gh\n".toList := fun blank =>
    absurd (blank 'g' (by decide)) (by decide)
  have whole := (line_by_line ["abcdef\n".toList] "  gh\n".toList [] (by decide +kernel)).1
    visible (by decide)
  rw [List.flatten_singleton] at whole
  exact ⟨parts, split_eq, whole⟩

end Loraterm
