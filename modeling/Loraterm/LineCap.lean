import Loraterm.ChunkText

/-!
# Lines of a text

`cap_lines` counts and cuts by bytes.  Both scans agree with the lines of the text, so the cap
keeps a whole number of lines and its slice never fails.
-/

namespace Loraterm

open Utf8Text LineSplit

/-- Lines of a text, each with its newline; the last may lack one. -/
def lines (text : Text) : List Text := splitInclusive isNewline text

/-- The capped text, line by line. -/
def lineCapped (maxLines : Nat) (text : Text) : Text :=
  if (lines text).length ≤ maxLines then text
  else ((lines text).take maxLines).flatten ++ lineMarker

@[simp] theorem flatten_lines (text : Text) : (lines text).flatten = text :=
  flatten_splitInclusive text

/-! ## Bytes and newlines -/

/-- Only the newline is encoded with a newline byte. -/
theorem newline_mem_encode_iff (char : Char) :
    (0x0A : UInt8) ∈ String.utf8EncodeChar char ↔ char = '\n' := by
  constructor
  · intro member
    have code_eq : char.val.toNat = 10 := by
      simp only [String.utf8EncodeChar] at member
      split at member
      · simp only [List.mem_singleton, ← UInt8.toNat_inj, UInt8.toNat_ofNat,
          UInt8.toNat_ofNat'] at member
        omega
      · exfalso
        split at member
        · simp only [List.mem_cons, List.not_mem_nil, or_false, ← UInt8.toNat_inj,
            UInt8.toNat_ofNat, UInt8.toNat_ofNat'] at member
          omega
        · split at member <;>
            simp only [List.mem_cons, List.not_mem_nil, or_false, ← UInt8.toNat_inj,
              UInt8.toNat_ofNat, UInt8.toNat_ofNat'] at member <;>
            omega
    exact Char.ext (UInt32.toNat_inj.mp code_eq)
  · rintro rfl
    decide

theorem count_newline_bytes (text : Text) :
    (bytes text).count 0x0A = text.countP isNewline := by
  induction text with
  | nil => rfl
  | cons char text ih =>
      rw [bytes_cons, List.count_append, ih, List.countP_cons]
      by_cases newline : char = '\n'
      · subst newline
        have encoded : (String.utf8EncodeChar '\n').count 0x0A = 1 := by decide
        have is_newline : isNewline '\n' = true := by decide
        rw [encoded, if_pos is_newline]
        omega
      · rw [List.count_eq_zero_of_not_mem fun member =>
          newline ((newline_mem_encode_iff char).mp member)]
        simp [isNewline, newline]

/-- The byte count of `cap_lines` is the number of lines. -/
theorem totalLines_eq (text : Text) : totalLines text = (lines text).length := by
  rw [lines, length_splitInclusive, totalLines, count_newline_bytes]
  congr 1
  cases text with
  | nil => rfl
  | cons char text =>
      rw [List.getLast?_eq_some_getLast (List.cons_ne_nil char text)]
      simp [isNewline]

/-- Bytes of one character other than the newline move the scan past it. -/
theorem lineCut_encode (maxLines seen offset : Nat) {char : Char} (other : char ≠ '\n')
    (rest : List UInt8) :
    lineCut maxLines seen offset (String.utf8EncodeChar char ++ rest) =
      lineCut maxLines seen (offset + char.utf8Size) rest := by
  rw [← String.length_utf8EncodeChar]
  have passed : ∀ byte ∈ String.utf8EncodeChar char, byte ≠ 0x0A := by
    rintro byte member rfl
    exact other ((newline_mem_encode_iff char).mp member)
  generalize String.utf8EncodeChar char = encoded at passed
  induction encoded generalizing offset with
  | nil => rfl
  | cons byte encoded ih =>
      have tail_passed := ih (offset + 1) fun later member =>
        passed later (List.mem_cons_of_mem byte member)
      rw [List.cons_append, lineCut, if_neg (passed byte List.mem_cons_self), tail_passed,
        List.length_cons]
      congr 1
      omega

/-- The byte scan stops right after the requested number of lines. -/
theorem lineCut_bytes {maxLines seen : Nat} (remaining : seen < maxLines) (offset : Nat)
    (text : Text) (enough : maxLines - seen ≤ text.countP isNewline) :
    lineCut maxLines seen offset (bytes text) =
      some (offset + byteLen (((lines text).take (maxLines - seen)).flatten)) := by
  induction text generalizing seen offset with
  | nil => simp at enough; omega
  | cons char text ih =>
      by_cases newline : char = '\n'
      · subst newline
        have encoded : bytes ('\n' :: text) = 0x0A :: bytes text := rfl
        have newline_size : '\n'.utf8Size = 1 := by decide
        have is_newline : isNewline '\n' = true := by decide
        have lines_eq : lines ('\n' :: text) = ['\n'] :: lines text :=
          splitInclusive_cons_separator is_newline text
        rw [List.countP_cons_of_pos is_newline] at enough
        rw [encoded, lineCut, if_pos rfl, lines_eq]
        by_cases done : seen + 1 = maxLines
        · have one_left : maxLines - seen = 1 := by omega
          simp [done, one_left, newline_size]
        · obtain ⟨left, left_eq⟩ : ∃ left, maxLines - seen = left + 1 :=
            ⟨maxLines - seen - 1, by omega⟩
          have next_left : maxLines - (seen + 1) = left := by omega
          rw [if_neg done, ih (by omega) (offset + 1) (by omega), left_eq, next_left,
            List.take_succ_cons, List.flatten_cons, byteLen_append]
          simp [newline_size, Nat.add_assoc]
      · have not_newline : isNewline char = false := by simp [isNewline, newline]
        rw [List.countP_cons_of_neg (by simp [not_newline])] at enough
        rw [bytes_cons, lineCut_encode maxLines seen offset newline,
          ih remaining _ enough]
        obtain ⟨left, left_eq⟩ : ∃ left, maxLines - seen = left + 1 :=
          ⟨maxLines - seen - 1, by omega⟩
        have tail_ne : lines text ≠ [] := by
          intro empty
          have := (splitInclusive_eq_nil_iff text).mp empty
          simp [this] at enough
          omega
        obtain ⟨line, later, lines_eq⟩ := List.exists_cons_of_ne_nil tail_ne
        have cons_eq : lines (char :: text) = (char :: line) :: later := by
          unfold lines at lines_eq ⊢
          rw [splitInclusive, lines_eq]
          simp [not_newline]
        rw [cons_eq, lines_eq, left_eq, List.take_succ_cons, List.take_succ_cons]
        simp [Nat.add_assoc]

/-! ## The cap -/

/-- A line up to and including its newline. -/
def Terminated (line : Text) : Prop :=
  ∃ body, '\n' ∉ body ∧ line = body ++ ['\n']

/-- How `cap_lines` cuts a text: right after its first `maxLines` lines, at the byte its scan
finds. -/
structure CutAfterLines (maxLines : Nat) (text : Text) (kept dropped : List Text) : Prop where
  /-- The lines kept come first. -/
  lines_eq : lines text = kept ++ dropped
  /-- As many as asked for. -/
  count : kept.length = maxLines
  /-- Each has its newline. -/
  terminated : ∀ line ∈ kept, Terminated line
  /-- The scan ends at the cut, never at its default. -/
  found : lineCut maxLines 0 0 (bytes text) = some (byteLen kept.flatten)
  /-- The cut lies between two characters. -/
  boundary : splitAt? text (byteLen kept.flatten) = some (kept.flatten, dropped.flatten)

theorem terminated_of_mem_take {text : Text} {count : Nat} (more : count < (lines text).length)
    {line : Text} (member : line ∈ (lines text).take count) : Terminated line := by
  obtain ⟨body, terminator, line_eq, unbroken, ends⟩ :=
    (isSplit_splitInclusive text).terminated_of_mem_take more member
  have terminator_eq : terminator = '\n' := by simpa [isNewline] using ends
  refine ⟨body, ?_, by rw [line_eq, terminator_eq]⟩
  intro newline
  have := unbroken '\n' newline
  simp [isNewline] at this

theorem cutAfterLines_of_long {maxLines : Nat} (positive : 0 < maxLines) {text : Text}
    (long : maxLines < (lines text).length) :
    CutAfterLines maxLines text ((lines text).take maxLines) ((lines text).drop maxLines) where
  lines_eq := (List.take_append_drop maxLines (lines text)).symm
  count := by
    rw [List.length_take]
    omega
  terminated _ member := terminated_of_mem_take long member
  found := by
    have enough : maxLines - 0 ≤ text.countP isNewline := by
      have counted : (lines text).length = text.countP isNewline + _ := length_splitInclusive text
      split at counted <;> omega
    rw [lineCut_bytes positive 0 text enough, Nat.zero_add, Nat.sub_zero]
  boundary := by
    have front_cut := splitAt?_append ((lines text).take maxLines).flatten
      ((lines text).drop maxLines).flatten
    rwa [← List.flatten_append, List.take_append_drop, flatten_lines] at front_cut

/-- `cap_lines` never fails and caps whole lines. -/
theorem capLines_eq {maxLines : Nat} (positive : 0 < maxLines) (text : Text) :
    capLines text maxLines = some (lineCapped maxLines text) := by
  rw [capLines, totalLines_eq, lineCapped]
  by_cases fits : (lines text).length ≤ maxLines
  · rw [if_pos fits, if_pos fits]
  · have cut := cutAfterLines_of_long positive (Nat.lt_of_not_le fits)
    simp only [if_neg fits, cut.found, Option.getD_some, cut.boundary, Option.map_some]

/-- The marker is one more line of the capped text. -/
theorem lines_lineCapped {maxLines : Nat} {text : Text} (long : maxLines < (lines text).length) :
    lines (lineCapped maxLines text) = (lines text).take maxLines ++ [lineMarker] := by
  have marker_eq : [lineMarker] = lines lineMarker := by decide +kernel
  have pieces_split := (isSplit_splitInclusive text).take_append long
    (isSplit_splitInclusive lineMarker)
  have flat_eq : ((lines text).take maxLines ++ lines lineMarker).flatten =
      ((lines text).take maxLines).flatten ++ lineMarker := by
    rw [List.flatten_append, flatten_lines]
  rw [lineCapped, if_neg (Nat.not_le.mpr long), marker_eq, ← flat_eq]
  exact pieces_split.splitInclusive_flatten

/-- Capping again cuts the marker off and puts it back. -/
theorem lineCapped_lineCapped (maxLines : Nat) (text : Text) :
    lineCapped maxLines (lineCapped maxLines text) = lineCapped maxLines text := by
  by_cases long : maxLines < (lines text).length
  · have take_length : ((lines text).take maxLines).length = maxLines := by
      rw [List.length_take]
      omega
    have exceeds : ¬ (lines (lineCapped maxLines text)).length ≤ maxLines := by
      rw [lines_lineCapped long, List.length_append, take_length, List.length_singleton]
      omega
    have again : (lines (lineCapped maxLines text)).take maxLines = (lines text).take maxLines := by
      rw [lines_lineCapped long, List.take_append_of_le_length (by omega), List.take_take,
        Nat.min_self]
    rw [lineCapped, if_neg exceeds, again, lineCapped, if_neg (by omega)]
  · have untouched : lineCapped maxLines text = text := by
      rw [lineCapped, if_pos (by omega)]
    rw [untouched, untouched]

theorem length_lines_lineCapped (maxLines : Nat) (text : Text) :
    (lines (lineCapped maxLines text)).length ≤ maxLines + 1 := by
  by_cases long : maxLines < (lines text).length
  · rw [lines_lineCapped long, List.length_append, List.length_take, List.length_singleton]
    omega
  · rw [lineCapped, if_pos (by omega)]
    omega

/-- A text within the cap is kept, a longer one is cut after its first lines and marked; the
result is at most one line over the cap and a second cap leaves it alone. -/
theorem capLines_exact {maxLines : Nat} (positive : 0 < maxLines) (text : Text) :
    ((lines text).length ≤ maxLines → capLines text maxLines = some text) ∧
    (maxLines < (lines text).length → ∃ kept dropped, CutAfterLines maxLines text kept dropped ∧
      capLines text maxLines = some (kept.flatten ++ lineMarker)) ∧
    ∃ capped, capLines text maxLines = some capped ∧
      (lines capped).length ≤ maxLines + 1 ∧ capLines capped maxLines = some capped := by
  refine ⟨fun short => ?_, fun long => ?_, lineCapped maxLines text, capLines_eq positive text,
    length_lines_lineCapped maxLines text, ?_⟩
  · rw [capLines_eq positive, lineCapped, if_pos short]
  · refine ⟨_, _, cutAfterLines_of_long positive long, ?_⟩
    rw [capLines_eq positive, lineCapped, if_neg (by omega)]
  · rw [capLines_eq positive, lineCapped_lineCapped]

theorem capLines_exact_sample :
    capLines "a\nb\nc".toList 2 = some "a\nb\n[...]\n".toList ∧
    (∃ kept dropped, CutAfterLines 2 "a\nb\nc".toList kept dropped ∧
      capLines "a\nb\nc".toList 2 = some (kept.flatten ++ lineMarker)) :=
  ⟨by decide +kernel, (capLines_exact (by decide) _).2.1 (by decide)⟩

end Loraterm
