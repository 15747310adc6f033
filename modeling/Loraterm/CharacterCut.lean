import Loraterm.ChunkText
import Loraterm.Library.WindowCut

/-!
# Splitting by characters

The byte arithmetic of `split_into_char_chunks` is compared with a cut that counts characters and
never fails.  The two agree on every window except those whose break falls one byte into a wide
white-space character; there the source panics.
-/

namespace Loraterm

open Utf8Text WindowCut

/-- What the splitter is for: windows of `maxChars` characters, broken after the last newline,
else after the last white space, else anywhere; blanks after a break are dropped. -/
def textCutter (maxChars : Nat) (positive : 0 < maxChars) : Cutter Char where
  width := maxChars
  width_pos := positive
  breaks := [isNewline, isWhitespace]
  skip := isBlank

/-- A window without a newline whose last white space is wider than one byte. -/
def wideBreak (window : Text) : Bool :=
  !window.any isNewline &&
    (window.reverse.find? isWhitespace).any fun char => decide (1 < char.utf8Size)

theorem isNewline_iff {char : Char} : isNewline char = true ↔ char = '\n' := by
  simp [isNewline]

theorem isNewline_not_isBlank (char : Char) (newline : isNewline char = true) :
    isBlank char = false := by
  obtain rfl := isNewline_iff.mp newline
  decide

/-- Narrow white space leaves no wide break. -/
theorem wideBreak_of_asciiWhitespace {window : Text} (ascii : AsciiWhitespace window) :
    wideBreak window = false := by
  have narrow : (window.reverse.find? isWhitespace).any
      (fun char => decide (1 < char.utf8Size)) = false := by
    cases found : window.reverse.find? isWhitespace with
    | none => rfl
    | some char =>
        have white : isWhitespace char = true := List.find?_some found
        have shown : char ∈ window := List.mem_reverse.mp (List.mem_of_find?_eq_some found)
        simp [utf8Size_of_ascii (ascii char shown white)]
  simp only [wideBreak, narrow, Bool.and_false]

/-! ## One window -/

private theorem find?_last {matching : Char → Bool} (before : Text) {char : Char} {after : Text}
    (matched : matching char = true) (unmatched : ∀ other ∈ after, matching other = false) :
    (before ++ char :: after).reverse.find? matching = some char := by
  have later : after.reverse.find? matching = none := by
    simpa [List.find?_eq_none] using unmatched
  simp [List.find?_append, later, matched]

/-- The break of a window is the character cut, unless it falls inside a wide white space. -/
theorem break_cases (window : Text) (maxChars : Nat) (positive : 0 < maxChars) :
    (wideBreak window = false ∧
      breakAtByte window (byteLen window) =
        byteLen (window.take ((textCutter maxChars positive).point window))) ∨
      ∃ before char after, window = before ++ char :: after ∧ wideBreak window = true ∧
        1 < char.utf8Size ∧ breakAtByte window (byteLen window) = byteLen before + 1 := by
  rcases exists_last_match isNewline window with
    unbroken | ⟨before, last, after, rfl, newline, unbroken⟩
  · have no_newline : window.any isNewline = false := by simpa using unbroken
    rcases exists_last_match isWhitespace window with
      solid | ⟨before, last, after, rfl, white, solid⟩
    · have no_white : window.reverse.find? isWhitespace = none := by
        simpa [List.find?_eq_none] using solid
      left
      constructor
      · simp [wideBreak, no_white]
      · simp [breakAtByte, rfind_eq_none unbroken, rfind_eq_none solid, textCutter,
          Cutter.point, cutAfterLast_eq_none unbroken, cutAfterLast_eq_none solid]
    · have break_eq :
          breakAtByte (before ++ last :: after) (byteLen (before ++ last :: after)) =
            byteLen before + 1 := by
        simp [breakAtByte, rfind_eq_none unbroken, rfind_append_cons before white solid]
      have size_pos := last.utf8Size_pos
      rcases Nat.lt_or_ge 1 last.utf8Size with wide | narrow
      · refine Or.inr ⟨before, last, after, rfl, ?_, wide, break_eq⟩
        simp only [wideBreak, no_newline, find?_last before white solid, Option.any_some, wide,
          decide_true, Bool.not_false, Bool.and_self]
      · refine Or.inl ⟨?_, ?_⟩
        · simp only [wideBreak, find?_last before white solid, Option.any_some,
            Nat.not_lt.mpr narrow, decide_false, Bool.and_false]
        · have point_eq : (textCutter maxChars positive).point (before ++ last :: after) =
              before.length + 1 := by
            simp [textCutter, Cutter.point, cutAfterLast_eq_none unbroken,
              cutAfterLast_append_cons before white solid]
          have size_one : last.utf8Size = 1 := by omega
          rw [break_eq, point_eq, List.take_length_add_append]
          simp [size_one]
  · left
    obtain rfl := isNewline_iff.mp newline
    have newline_size : '\n'.utf8Size = 1 := by decide
    have point_eq : (textCutter maxChars positive).point (before ++ '\n' :: after) =
        before.length + 1 := by
      simp [textCutter, Cutter.point, cutAfterLast_append_cons before newline unbroken]
    constructor
    · simp [wideBreak, newline]
    · rw [point_eq, List.take_length_add_append]
      simp [breakAtByte, rfind_append_cons before newline unbroken, newline_size]

section Turn

variable {maxChars : Nat} (positive : 0 < maxChars) {rest : Text}

/-- A turn cuts where the characters say. -/
theorem splitTurn_of_narrow (long : maxChars < rest.length)
    (narrow : wideBreak (rest.take maxChars) = false) :
    splitTurn rest maxChars =
      some ((textCutter maxChars positive).head rest, (textCutter maxChars positive).tail rest) := by
  rcases break_cases (rest.take maxChars) maxChars positive with
    ⟨_, break_eq⟩ | ⟨_, _, _, _, wide, _⟩
  · have head_eq : (rest.take maxChars).take
        ((textCutter maxChars positive).point (rest.take maxChars)) =
        (textCutter maxChars positive).head rest := by
      have cutter_long : (textCutter maxChars positive).width < rest.length := long
      have bounds := (textCutter maxChars positive).point_window_bounds cutter_long
      simp only [textCutter] at bounds ⊢
      rw [Cutter.head, List.take_take, Nat.min_eq_left bounds.2]
    have joined := (textCutter maxChars positive).head_append_tail rest
    rw [splitTurn_of_long long, break_eq, head_eq]
    conv_lhs => arg 1; rw [← joined]
    exact splitAt?_append _ _
  · simp [narrow] at wide

include positive in
/-- A turn whose break falls inside a wide white space panics. -/
theorem splitTurn_of_wide (long : maxChars < rest.length)
    (wide : wideBreak (rest.take maxChars) = true) : splitTurn rest maxChars = none := by
  rcases break_cases (rest.take maxChars) maxChars positive with
    ⟨narrow, _⟩ | ⟨before, char, after, window_eq, _, size, break_eq⟩
  · simp [narrow] at wide
  · have rest_eq : rest = before ++ char :: (after ++ rest.drop maxChars) := by
      have joined := List.take_append_drop maxChars rest
      rw [window_eq] at joined
      simpa using joined.symm
    rw [splitTurn_of_long long, break_eq]
    conv_lhs => arg 1; rw [rest_eq]
    exact splitAt?_inside before char _ Nat.one_pos size

end Turn

/-! ## The whole loop -/

theorem splitLoop_of_short {maxChars : Nat} {positive : 0 < maxChars} {rest : Text}
    (short : rest.length ≤ maxChars) :
    splitLoop maxChars positive rest =
      if rest.isEmpty then some [] else some [trimEndMatches isNewline rest] := by
  rw [splitLoop]
  simp [short]

theorem splitLoop_of_long {maxChars : Nat} {positive : 0 < maxChars} {rest : Text}
    (long : maxChars < rest.length) :
    splitLoop maxChars positive rest =
      match splitTurn rest maxChars with
      | none => none
      | some (head, tail) =>
          (splitLoop maxChars positive (trimStartMatches isBlank tail)).map
            (trimEndMatches isNewline head :: ·) := by
  have nonempty : rest.isEmpty = false := by
    cases rest with
    | nil => simp at long
    | cons => rfl
  rw [splitLoop]
  simp only [nonempty, Bool.false_eq_true, if_false, dif_neg (Nat.not_le.mpr long)]
  split <;> rename_i turn <;> simp [turn]

/-- The splitting loop completes exactly when no window breaks inside a wide white space, and then
returns the character cut. -/
theorem splitLoop_eq (maxChars : Nat) (positive : 0 < maxChars) (rest : Text) :
    splitLoop maxChars positive rest =
      if ((textCutter maxChars positive).windows rest).any wideBreak then
        none
      else
        some (((textCutter maxChars positive).pieces rest).map (trimEndMatches isNewline)) := by
  induction rest using (textCutter maxChars positive).turn_induction with
  | short rest short =>
      have short : rest.length ≤ maxChars := short
      rw [splitLoop_of_short short, Cutter.windows_of_short _ short,
        Cutter.pieces_of_short _ short]
      cases rest <;> simp
  | long rest long ih =>
      have long : maxChars < rest.length := long
      rw [splitLoop_of_long long, Cutter.windows_of_long _ long, Cutter.pieces_of_long _ long,
        List.any_cons]
      cases wide : wideBreak (rest.take (textCutter maxChars positive).width) with
      | true =>
          have turn : splitTurn rest maxChars = none := splitTurn_of_wide positive long wide
          simp [turn]
      | false =>
          have turn := splitTurn_of_narrow positive long wide
          simp only [turn, Bool.false_or]
          rw [show trimStartMatches isBlank ((textCutter maxChars positive).tail rest) =
            (textCutter maxChars positive).remainder rest from rfl, ih]
          split <;> simp

/-- A text whose white space is all ASCII is split into the pieces of the character cut. -/
theorem splitIntoCharChunks_of_asciiWhitespace {maxChars : Nat} (positive : 0 < maxChars)
    {text : Text} (ascii : AsciiWhitespace text) :
    splitIntoCharChunks text maxChars =
      some (((textCutter maxChars positive).pieces text).map (trimEndMatches isNewline)) := by
  have narrow : ((textCutter maxChars positive).windows text).any wideBreak = false := by
    rw [List.any_eq_false]
    intro window member
    have window_ascii : AsciiWhitespace window := fun char shown =>
      ascii char ((textCutter maxChars positive).mem_of_mem_windows text window member char shown)
    rw [wideBreak_of_asciiWhitespace window_ascii]
    exact Bool.false_ne_true
  rw [splitIntoCharChunks, dif_neg (Nat.ne_of_gt positive), splitLoop_eq, narrow]
  rfl

end Loraterm
