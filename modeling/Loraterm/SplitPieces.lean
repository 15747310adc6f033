import Loraterm.ChunkPieces

/-!
# What the splitter cuts and drops

`split_into_char_chunks` returns the pieces of a text and drops what stands between them.  Here the
dropped characters are kept, so that the pieces can be put back in their places.
-/

namespace Loraterm

open Utf8Text WindowCut

/-- A piece of a text with what is dropped after it: newlines, then blanks. -/
structure Part where
  piece : Text
  newlines : Text
  blanks : Text
  /-- Newlines go with the ones dropped. -/
  piece_ends : piece.getLast? ≠ some '\n'
  newlines_all : ∀ char ∈ newlines, isNewline char = true
  blanks_all : ∀ char ∈ blanks, isBlank char = true

namespace Part

/-- All characters of a part. -/
def text (part : Part) : Text := part.piece ++ part.newlines ++ part.blanks

theorem getLast?_trimEndMatches (text : Text) :
    (trimEndMatches isNewline text).getLast? ≠ some '\n' := by
  intro ends
  have nonempty : trimEndMatches isNewline text ≠ [] := by
    rintro empty
    simp [empty] at ends
  rw [List.getLast?_eq_some_getLast nonempty] at ends
  have not_newline := List.rdropWhile_last_not isNewline text nonempty
  exact not_newline (isNewline_iff.mpr (Option.some.inj ends))

/-- The part of one turn of the loop: its head with newlines trimmed, and the blanks after it. -/
def ofCut (cut : Text × Text) (blanks_all : ∀ char ∈ cut.2, isBlank char = true) : Part where
  piece := trimEndMatches isNewline cut.1
  newlines := cut.1.rtakeWhile isNewline
  blanks := cut.2
  piece_ends := getLast?_trimEndMatches cut.1
  newlines_all _ member := List.mem_rtakeWhile_imp member
  blanks_all := blanks_all

/-- The entry of the character cut that a part stands for. -/
def entry (part : Part) : Text × Text := (part.piece ++ part.newlines, part.blanks)

theorem entry_ofCut (cut : Text × Text) (blanks_all : ∀ char ∈ cut.2, isBlank char = true) :
    (ofCut cut blanks_all).entry = cut := by
  simp only [entry, ofCut, trimEndMatches, List.rdropWhile_append_rtakeWhile]

/-- A part keeps what is left of its head once the newlines are trimmed. -/
theorem piece_eq (part : Part) : part.piece = trimEndMatches isNewline part.entry.1 := by
  have newlines_gone : (part.piece ++ part.newlines).rdropWhile isNewline =
      part.piece.rdropWhile isNewline := by
    rw [List.rdropWhile, List.reverse_append, List.dropWhile_append_of_pos]
    · rfl
    · exact fun char member => part.newlines_all char (List.mem_reverse.mp member)
  rw [entry, trimEndMatches, newlines_gone, eq_comm, List.rdropWhile_eq_self_iff]
  intro nonempty newline
  apply part.piece_ends
  rw [List.getLast?_eq_some_getLast nonempty, isNewline_iff.mp newline]

end Part

theorem isBlank_of_mem_cut {maxChars : Nat} (positive : 0 < maxChars) (text : Text) :
    ∀ cut ∈ (textCutter maxChars positive).cut text, ∀ char ∈ cut.2, isBlank char = true :=
  (textCutter maxChars positive).skip_of_mem_cut text

/-- The parts a text is split into, one for each turn of the loop. -/
def textParts (maxChars : Nat) (positive : 0 < maxChars) (text : Text) : List Part :=
  ((textCutter maxChars positive).cut text).pmap Part.ofCut (isBlank_of_mem_cut positive text)

/-- The text some parts were split from. -/
def partsText (parts : List Part) : Text := (parts.map Part.text).flatten

theorem partsText_eq_joined (parts : List Part) :
    partsText parts = Cutter.joined (parts.map Part.entry) := by
  rw [partsText, Cutter.joined, List.map_map]
  rfl

theorem partsText_append (front back : List Part) :
    partsText (front ++ back) = partsText front ++ partsText back := by
  simp [partsText]

theorem partsText_singleton (part : Part) : partsText [part] = part.text := by
  simp [partsText]

section Parts

variable {maxChars : Nat} (positive : 0 < maxChars) (text : Text)

/-- Part by part, the split is the character cut. -/
theorem map_entry_textParts :
    (textParts maxChars positive text).map Part.entry = (textCutter maxChars positive).cut text := by
  rw [textParts, List.map_pmap]
  simp only [Part.entry_ofCut]
  rw [List.pmap_eq_map, List.map_id']

theorem map_piece_textParts :
    (textParts maxChars positive text).map Part.piece =
      ((textCutter maxChars positive).pieces text).map (trimEndMatches isNewline) := by
  rw [Cutter.pieces, ← map_entry_textParts, List.map_map, List.map_map]
  exact List.map_congr_left fun part _ => part.piece_eq

theorem partsText_textParts : partsText (textParts maxChars positive text) = text := by
  rw [partsText_eq_joined, map_entry_textParts, Cutter.joined_cut]

theorem textParts_eq_nil_iff : textParts maxChars positive text = [] ↔ text = [] := by
  rw [← List.map_eq_nil_iff, map_entry_textParts, Cutter.cut_eq_nil_iff]

/-- Pieces fit the limit. -/
theorem length_piece_le {part : Part} (member : part ∈ textParts maxChars positive text) :
    part.piece.length ≤ maxChars := by
  have head_mem : part.entry.1 ∈ (textCutter maxChars positive).pieces text := by
    rw [Cutter.pieces, ← map_entry_textParts]
    exact List.mem_map_of_mem (List.mem_map_of_mem member)
  have fits : part.entry.1.length ≤ maxChars :=
    (textCutter maxChars positive).length_le_of_mem_pieces text part.entry.1 head_mem
  rw [part.piece_eq]
  exact (List.rdropWhile_prefix isNewline part.entry.1).length_le.trans fits

/-- Blanks follow the last piece only when the text ran out after a cut. -/
theorem blanks_of_getLast? {part : Part}
    (last : (textParts maxChars positive text).getLast? = some part) :
    part.blanks = [] ∨ maxChars < part.text.length := by
  obtain ⟨earlier, parts_eq⟩ := List.getLast?_eq_some_iff.mp last
  have cut_eq := map_entry_textParts positive text
  rw [parts_eq, List.map_append, List.map_singleton] at cut_eq
  exact (textCutter maxChars positive).skipped_of_last cut_eq.symm

end Parts

/-- A text cut without loss: bounded pieces, and between them newlines and blanks only. -/
structure LosslessCut (maxChars : Nat) (text : Text) (parts : List Part) : Prop where
  joined : partsText parts = text
  bounded : ∀ part ∈ parts, part.piece.length ≤ maxChars
  /-- Only newlines follow the last piece, unless what was left ran out after a cut. -/
  last : ∀ part, parts.getLast? = some part → part.blanks = [] ∨ maxChars < part.text.length
  empty : parts = [] ↔ text = []

theorem splitIntoCharChunks_eq_textParts {maxChars : Nat} (positive : 0 < maxChars) {text : Text}
    (ascii : AsciiWhitespace text) :
    splitIntoCharChunks text maxChars =
      some ((textParts maxChars positive text).map Part.piece) := by
  rw [splitIntoCharChunks_of_asciiWhitespace positive ascii, map_piece_textParts]

/-- Splitting a text whose white space is ASCII returns bounded pieces and loses only the newlines
and blanks between them. -/
theorem splitIntoCharChunks_lossless {maxChars : Nat} (positive : 1 ≤ maxChars) {text : Text}
    (ascii : AsciiWhitespace text) :
    ∃ parts, splitIntoCharChunks text maxChars = some (parts.map Part.piece) ∧
      LosslessCut maxChars text parts :=
  ⟨textParts maxChars positive text, splitIntoCharChunks_eq_textParts positive ascii,
    partsText_textParts positive text, fun _ => length_piece_le positive text,
    fun _ => blanks_of_getLast? positive text, textParts_eq_nil_iff positive text⟩

/-- A cut before the blanks and another after the newlines. -/
theorem splitIntoCharChunks_lossless_sample :
    splitIntoCharChunks "ab  cd\n\ne".toList 3 =
        some ["ab ".toList, "cd".toList, "\ne".toList] ∧
      ∃ parts, splitIntoCharChunks "ab  cd\n\ne".toList 3 = some (parts.map Part.piece) ∧
        LosslessCut 3 "ab  cd\n\ne".toList parts :=
  ⟨by decide +kernel, splitIntoCharChunks_lossless (by decide) (by simp [AsciiWhitespace])⟩

end Loraterm
