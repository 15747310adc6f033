import Loraterm.ChunkerCompletion

/-!
# Nothing visible is lost silently

Whatever `chunks_from_text` drops is announced: lines past the cap by a `[...]` line, pieces past
the burst cap by the burst marker.  The rest is shown once, in order.
-/

namespace Loraterm

open Utf8Text LineSplit WindowCut

/-- What a flush shows when the burst cap drops nothing: the visible characters of the first ten
lines of the collapsed text, and the marker of the line cap when there are more. -/
def expectedVisible (text : Text) : Text :=
  visible ((lines (collapseBlankLines text)).take maxLinesPerFlush).flatten ++
    if maxLinesPerFlush < (lines (collapseBlankLines text)).length then "[...]".toList else []

theorem visible_cappedText (text : Text) : visible (cappedText text) = expectedVisible text := by
  rcases Nat.lt_or_ge maxLinesPerFlush (lines (collapseBlankLines text)).length with many | few
  · have marker_visible : visible lineMarker = "[...]".toList := by decide
    rw [cappedText_of_many many, visible_append, marker_visible, expectedVisible, if_pos many]
  · rw [cappedText_of_few few, expectedVisible, if_neg (Nat.not_lt.mpr few),
      List.take_of_length_le few, flatten_lines, List.append_nil]

/-- The capped text of a long text ends in the marker line. -/
theorem cappedText_ends {text : Text}
    (many : maxLinesPerFlush < (lines (collapseBlankLines text)).length) :
    ∃ front, AtLineStart isNewline front ∧
      cappedText text = front ++ ("[...]".toList ++ ['\n']) ++ [] := by
  have positive : 0 < maxLinesPerFlush := by decide
  obtain ⟨front, terminator, kept_eq, newline⟩ :=
    (isSplit_splitInclusive (collapseBlankLines text)).take_ends positive many
  refine ⟨((lines (collapseBlankLines text)).take maxLinesPerFlush).flatten,
    Or.inr ⟨front, terminator, kept_eq, newline⟩, ?_⟩
  rw [cappedText_of_many many, List.append_nil]
  rfl

theorem lines_marker_last {front : Text} (starts : AtLineStart isNewline front) :
    "[...]".toList ∈ lines (front ++ "[...]".toList) := by
  have marker_line : lines "[...]".toList = ["[...]".toList] := by decide
  obtain rfl | ⟨before, last, rfl, newline⟩ := starts
  · rw [List.nil_append, marker_line]
    exact List.mem_singleton.mpr rfl
  · rw [lines, List.append_assoc, List.singleton_append, splitInclusive_append newline]
    exact List.mem_append_right _ (by rw [← lines, marker_line]; exact List.mem_singleton.mpr rfl)

theorem trimEndMatches_marker (before : Text) :
    trimEndMatches isNewline (before ++ ("[...]".toList ++ ['\n'])) = before ++ "[...]".toList := by
  have newline : isNewline '\n' = true := by decide
  have bracket : ¬ isNewline ']' = true := by decide
  have marker_eq : "[...]".toList = "[...".toList ++ [']'] := by decide
  rw [← List.append_assoc, trimEndMatches, List.rdropWhile_concat_pos _ _ _ newline, marker_eq,
    ← List.append_assoc, List.rdropWhile_concat_neg _ _ _ bracket]

theorem not_blank_marker (before : Text) : ¬ Blank (before ++ "[...]".toList) := by
  intro blank
  have white := blank '[' (List.mem_append_right before (by decide))
  exact absurd white (by decide)

/-- The marker starts with a bracket, so no blank of it is skipped. -/
theorem marker_unskipped {skipped kept : Text} (marker_eq : "[...]".toList = skipped ++ kept)
    (all_skipped : ∀ char ∈ skipped, isBlank char = true) : kept = "[...]".toList := by
  cases skipped with
  | nil => exact marker_eq.symm
  | cons char skipped =>
      have bracket : char = '[' := by
        have heads := congrArg List.head? marker_eq
        simpa using heads.symm
      have blank := all_skipped char List.mem_cons_self
      rw [bracket] at blank
      exact absurd blank (by decide)

/-- The marker of the line cap is never cut: it is a line of one piece. -/
theorem marker_line_in_piece {text : Text} (opts : ChunkerOpts)
    (many : maxLinesPerFlush < (lines (collapseBlankLines text)).length) :
    ∃ piece ∈ visiblePieces text opts, "[...]".toList ∈ lines piece := by
  obtain ⟨front, starts, capped_eq⟩ := cappedText_ends many
  have no_newline : "[...]".toList.all (fun char => !isNewline char) = true := by decide
  have unbroken : ∀ char ∈ "[...]".toList, isNewline char = false := fun char member => by
    simpa using List.all_eq_true.mp no_newline char member
  have shown : ∃ char ∈ "[...]".toList, (bodyCutter opts).skip char = false := by
    refine ⟨'[', by decide, ?_⟩
    show isBlank '[' = false
    decide
  have fits : ("[...]".toList ++ ['\n']).length ≤ (bodyCutter opts).width := by
    have six : ("[...]".toList ++ ['\n']).length = 6 := by decide
    rw [six]
    simp only [bodyCutter, textCutter, innerMax]
    omega
  obtain ⟨piece, member, before, skipped, kept, back, marker_eq, all_skipped, piece_eq,
    piece_starts, back_prefix⟩ :=
    (bodyCutter opts).line_in_piece rfl isNewline_not_isBlank starts unbroken shown
      (Or.inl ⟨'\n', rfl, by decide⟩) fits
  rw [← capped_eq] at member
  obtain rfl := marker_unskipped marker_eq all_skipped
  obtain rfl := List.prefix_nil.mp back_prefix
  have trimmed : trimEndMatches isNewline piece = before ++ "[...]".toList := by
    rw [piece_eq, List.append_nil, trimEndMatches_marker]
  refine ⟨trimEndMatches isNewline piece, ?_, ?_⟩
  · refine List.mem_filter.mpr ⟨List.mem_map_of_mem member, ?_⟩
    rw [trimmed]
    simpa [← isEmpty_trim_iff] using not_blank_marker before
  · rw [trimmed]
    exact lines_marker_last piece_starts

/-- Every text with ASCII white space is shown up to what the markers announce. -/
theorem no_silent_loss {text : Text} (ascii : AsciiWhitespace text) (opts : ChunkerOpts) :
    ∃ chunks, chunksFromText text opts = some chunks ∧ (chunks = [] ↔ Blank text) ∧
      ∃ (bodies : List Text) (dropped : Option Nat),
        chunks = numberStrings opts (bodies ++ (dropped.map burstMarker).toList) ∧
        visible bodies.flatten <+: expectedVisible text ∧
        (dropped = none → visible bodies.flatten = expectedVisible text) ∧
        (visible bodies.flatten ≠ visible text →
          dropped.isSome = true ∨ ∃ body ∈ bodies, "[...]".toList ∈ lines body) := by
  let pieces := visiblePieces text opts
  have all_visible : visible pieces.flatten = expectedVisible text :=
    (visible_visiblePieces text opts).trans (visible_cappedText text)
  refine ⟨numberStrings opts (cappedStrings opts pieces), ?_, ?_, ?_⟩
  · rw [chunksFromText_eq, if_pos (narrowBreaks_of_ascii ascii opts)]
  · rw [← visiblePieces_eq_nil_iff text opts, ← List.length_eq_zero_iff, length_numberStrings,
      length_cappedStrings, ← List.length_eq_zero_iff]
    simp only [pieces]
    omega
  by_cases capped : opts.burstChunkCap < pieces.length
  · refine ⟨pieces.take opts.burstChunkCap, some (pieces.length - opts.burstChunkCap), ?_, ?_,
      by simp, fun _ => Or.inl rfl⟩
    · simp [cappedStrings, capped]
    · rw [← all_visible]
      conv_rhs => rw [← List.take_append_drop opts.burstChunkCap pieces, List.flatten_append,
        visible_append]
      exact List.prefix_append _ _
  · refine ⟨pieces, none, ?_, all_visible ▸ List.prefix_refl _, fun _ => all_visible, ?_⟩
    · have kept : pieces.take opts.burstChunkCap = pieces :=
        List.take_of_length_le (Nat.not_lt.mp capped)
      simp [cappedStrings, capped, kept]
    · intro missing
      right
      rcases Nat.lt_or_ge maxLinesPerFlush (lines (collapseBlankLines text)).length with
        many | few
      · exact marker_line_in_piece opts many
      · have complete : visible pieces.flatten = visible text := by
          rw [visible_visiblePieces, cappedText_of_few few, visible_collapseBlankLines]
        exact (missing complete).elim

/-- The law at a text of two lines. -/
theorem no_silent_loss_two_lines :
    ∃ chunks, chunksFromText "a\nb\n".toList ChunkerOpts.default = some chunks ∧
      (chunks = [] ↔ Blank "a\nb\n".toList) ∧
      ∃ (bodies : List Text) (dropped : Option Nat),
        chunks = numberStrings ChunkerOpts.default
          (bodies ++ (dropped.map burstMarker).toList) ∧
        visible bodies.flatten <+: expectedVisible "a\nb\n".toList ∧
        (dropped = none → visible bodies.flatten = expectedVisible "a\nb\n".toList) ∧
        (visible bodies.flatten ≠ visible "a\nb\n".toList →
          dropped.isSome = true ∨ ∃ body ∈ bodies, "[...]".toList ∈ lines body) := by
  have ascii : "a\nb\n".toList.all (fun char => char.toNat < 0x80) = true := by decide
  have ascii_white : AsciiWhitespace "a\nb\n".toList := fun char member _ =>
    of_decide_eq_true (List.all_eq_true.mp ascii char member)
  exact no_silent_loss ascii_white ChunkerOpts.default

end Loraterm
