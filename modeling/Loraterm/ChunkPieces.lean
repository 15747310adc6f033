import Loraterm.CharacterCut
import Loraterm.BlankLines

/-!
# The pieces behind the chunks

`chunks_from_text` returns the first visible pieces of the capped text, a marker when the burst
cap dropped some, and numbers them.  Here that composition is stated once, over pieces.
-/

namespace Loraterm

open Utf8Text WindowCut

theorem innerMax_pos (opts : ChunkerOpts) : 0 < innerMax opts := by
  simp only [innerMax]
  omega

/-- The cutter at the body width of the options. -/
def bodyCutter (opts : ChunkerOpts) : Cutter Char := textCutter (innerMax opts) (innerMax_pos opts)

/-- The text that is split: blank lines collapsed, then capped to ten lines. -/
def cappedText (text : Text) : Text := lineCapped maxLinesPerFlush (collapseBlankLines text)

/-- The pieces of a text that are not blank, newlines trimmed. -/
def visiblePieces (text : Text) (opts : ChunkerOpts) : List Text :=
  (((bodyCutter opts).pieces (cappedText text)).map (trimEndMatches isNewline)).filter
    fun piece => !(trim piece).isEmpty

/-- No break of the text falls inside a wide white-space character. -/
def NarrowBreaks (text : Text) (opts : ChunkerOpts) : Prop :=
  Blank text ∨ ∀ window ∈ (bodyCutter opts).windows (cappedText text), wideBreak window = false

instance (text : Text) (opts : ChunkerOpts) : Decidable (NarrowBreaks text opts) :=
  inferInstanceAs (Decidable (_ ∨ _))

/-! ## Numbering and the cap -/

/-- Prefix every string with its place, when numbering is on and there are several. -/
def numberStrings (opts : ChunkerOpts) (strings : List Text) : List Text :=
  if opts.numberChunks && 1 < strings.length then
    strings.mapIdx fun index body => chunkPrefix (index + 1) strings.length ++ body
  else
    strings

/-- What the burst cap leaves of the pieces: the first ones, and a marker for the others. -/
def cappedStrings (opts : ChunkerOpts) (pieces : List Text) : List Text :=
  pieces.take opts.burstChunkCap ++
    if opts.burstChunkCap < pieces.length then
      [burstMarker (pieces.length - opts.burstChunkCap)]
    else
      []

theorem length_numberStrings (opts : ChunkerOpts) (strings : List Text) :
    (numberStrings opts strings).length = strings.length := by
  unfold numberStrings
  split <;> simp

theorem length_cappedStrings (opts : ChunkerOpts) (pieces : List Text) :
    (cappedStrings opts pieces).length = min pieces.length (opts.burstChunkCap + 1) := by
  simp only [cappedStrings, List.length_append, List.length_take]
  split
  · simp only [List.length_singleton]
    omega
  · simp only [List.length_nil]
    omega

/-- The code numbers bodies and marker in two places; together they are numbered as one list. -/
theorem finishChunks_eq (opts : ChunkerOpts) (split : List Text) :
    finishChunks opts split =
      numberStrings opts
        (cappedStrings opts (split.filter fun chunk => !(trim chunk).isEmpty)) := by
  generalize pieces_eq : (split.filter fun chunk => !(trim chunk).isEmpty) = pieces
  simp only [finishChunks, pieces_eq]
  by_cases capped : opts.burstChunkCap < pieces.length
  · have kept_length : (pieces.take opts.burstChunkCap).length = opts.burstChunkCap := by
      simp only [List.length_take]
      omega
    simp only [if_pos capped, Option.isSome_some, if_true, kept_length, numberStrings,
      cappedStrings, List.length_append, List.length_singleton]
    split
    · simp [List.mapIdx_append, kept_length]
    · rfl
  · have kept_eq : pieces.take opts.burstChunkCap = pieces :=
      List.take_of_length_le (Nat.not_lt.mp capped)
    simp [capped, numberStrings, cappedStrings, kept_eq]

/-! ## What the pieces show -/

theorem isWhitespace_of_isBlank {char : Char} (blank : isBlank char = true) :
    isWhitespace char = true := by
  simp only [isBlank, Bool.or_eq_true, beq_iff_eq] at blank
  obtain rfl | rfl := blank <;> decide

theorem isWhitespace_of_isNewline {char : Char} (newline : isNewline char = true) :
    isWhitespace char = true := by
  obtain rfl := isNewline_iff.mp newline
  decide

/-- Trimming newlines hides nothing visible. -/
theorem visible_trimEndMatches (text : Text) :
    visible (trimEndMatches isNewline text) = visible text := by
  induction text using List.reverseRecOn with
  | nil => rfl
  | append_singleton text char ih =>
      cases newline : isNewline char with
      | true =>
          have hidden := isWhitespace_of_isNewline newline
          rw [trimEndMatches, List.rdropWhile_concat_pos _ _ _ newline]
          rw [trimEndMatches] at ih
          simp [visible, hidden] at ih ⊢
          exact ih
      | false =>
          rw [trimEndMatches, List.rdropWhile_concat_neg _ _ _ (by simp [newline])]

/-- Trimming and dropping blank pieces hides nothing visible. -/
theorem visible_filter_pieces (pieces : List Text) :
    visible ((pieces.map (trimEndMatches isNewline)).filter
      fun piece => !(trim piece).isEmpty).flatten = visible pieces.flatten := by
  induction pieces with
  | nil => rfl
  | cons piece pieces ih =>
      rw [List.map_cons, List.flatten_cons, visible_append, List.filter_cons]
      split
      · rw [List.flatten_cons, visible_append, ih, visible_trimEndMatches]
      · rename_i blank
        have hidden : visible piece = [] := by
          rw [← visible_trimEndMatches, visible_eq_nil_iff, ← isEmpty_trim_iff]
          simpa using blank
        simp [ih, hidden]

/-- The pieces show all that is visible in the capped text, in order. -/
theorem visible_visiblePieces (text : Text) (opts : ChunkerOpts) :
    visible (visiblePieces text opts).flatten = visible (cappedText text) := by
  have hidden : ∀ char, (bodyCutter opts).skip char = true →
      (!isWhitespace char) = false := by
    intro char blank
    simp [isWhitespace_of_isBlank blank]
  rw [visiblePieces, visible_filter_pieces]
  exact (bodyCutter opts).filter_flatten_pieces hidden (cappedText text)

/-- Lines of the text that is capped. -/
theorem cappedText_of_few {text : Text}
    (few : (lines (collapseBlankLines text)).length ≤ maxLinesPerFlush) :
    cappedText text = collapseBlankLines text := by
  rw [cappedText, lineCapped, if_pos few]

theorem cappedText_of_many {text : Text}
    (many : maxLinesPerFlush < (lines (collapseBlankLines text)).length) :
    cappedText text =
      ((lines (collapseBlankLines text)).take maxLinesPerFlush).flatten ++ lineMarker := by
  rw [cappedText, lineCapped, if_neg (Nat.not_le.mpr many)]

/-- The capped text has no characters but those of the text and of the marker line. -/
theorem mem_of_mem_cappedText {text : Text} {char : Char} (member : char ∈ cappedText text) :
    char ∈ text ∨ char ∈ lineMarker := by
  rcases Nat.lt_or_ge maxLinesPerFlush (lines (collapseBlankLines text)).length with many | few
  · rw [cappedText_of_many many] at member
    rcases List.mem_append.mp member with kept | marked
    · obtain ⟨line, line_mem, char_mem⟩ := List.mem_flatten.mp kept
      apply Or.inl
      apply mem_of_mem_collapseBlankLines
      rw [← flatten_lines (collapseBlankLines text)]
      exact List.mem_flatten.mpr ⟨line, List.mem_of_mem_take line_mem, char_mem⟩
    · exact Or.inr marked
  · rw [cappedText_of_few few] at member
    exact Or.inl (mem_of_mem_collapseBlankLines member)

theorem asciiWhitespace_cappedText {text : Text} (ascii : AsciiWhitespace text) :
    AsciiWhitespace (cappedText text) := by
  intro char member white
  rcases mem_of_mem_cappedText member with of_text | of_marker
  · exact ascii char of_text white
  · have marker_ascii : lineMarker.all (fun marked => marked.toNat < 0x80) = true := by decide
    exact of_decide_eq_true (List.all_eq_true.mp marker_ascii char of_marker)

/-- A blank text collapses to fewer lines than the cap. -/
theorem few_lines_of_blank {text : Text} (blank : Blank text) :
    (lines (collapseBlankLines text)).length ≤ maxLinesPerFlush := by
  have lines_blank : ∀ line ∈ lines text, Blank line := by
    intro line member char shown
    apply blank
    rw [← flatten_lines text]
    exact List.mem_flatten.mpr ⟨line, member, shown⟩
  have bound := length_collapsedLines_of_blank 0 lines_blank
  rw [lines_collapseBlankLines]
  simp only [maxLinesPerFlush]
  omega

theorem flatten_visiblePieces_blank_iff (text : Text) (opts : ChunkerOpts) :
    visiblePieces text opts = [] ↔ visible (visiblePieces text opts).flatten = [] := by
  constructor
  · intro none_visible
    simp [none_visible]
  · intro hidden
    by_contra some_visible
    obtain ⟨piece, later, pieces_eq⟩ := List.exists_cons_of_ne_nil some_visible
    have shown : piece ∈ visiblePieces text opts := by simp [pieces_eq]
    have not_blank := (List.mem_filter.mp shown).2
    rw [pieces_eq, List.flatten_cons, visible_append] at hidden
    have piece_blank : Blank piece := (visible_eq_nil_iff piece).mp
      (List.append_eq_nil_iff.mp hidden).1
    simp [(isEmpty_trim_iff piece).mpr piece_blank] at not_blank

/-- A text has no visible piece exactly when it is blank. -/
theorem visiblePieces_eq_nil_iff (text : Text) (opts : ChunkerOpts) :
    visiblePieces text opts = [] ↔ Blank text := by
  rw [flatten_visiblePieces_blank_iff, visible_visiblePieces]
  constructor
  · intro hidden
    rcases Nat.lt_or_ge maxLinesPerFlush (lines (collapseBlankLines text)).length with many | few
    · have marked : visible lineMarker ≠ [] := by decide
      rw [cappedText_of_many many, visible_append] at hidden
      exact (marked (List.append_eq_nil_iff.mp hidden).2).elim
    · rw [cappedText_of_few few, visible_collapseBlankLines] at hidden
      exact (visible_eq_nil_iff text).mp hidden
  · intro blank
    rw [cappedText_of_few (few_lines_of_blank blank), visible_collapseBlankLines]
    exact (visible_eq_nil_iff text).mpr blank

/-! ## The whole function -/

theorem chunks_of_blank {text : Text} (blank : Blank text) (opts : ChunkerOpts) :
    numberStrings opts (cappedStrings opts (visiblePieces text opts)) = [] := by
  simp [(visiblePieces_eq_nil_iff text opts).mpr blank, numberStrings, cappedStrings]

/-- `chunks_from_text` completes exactly on texts whose breaks are narrow, and returns the visible
pieces, capped and numbered. -/
theorem chunksFromText_eq (text : Text) (opts : ChunkerOpts) :
    chunksFromText text opts =
      if NarrowBreaks text opts then
        some (numberStrings opts (cappedStrings opts (visiblePieces text opts)))
      else none := by
  simp only [chunksFromText, isEmpty_trim_iff]
  by_cases blank : Blank text
  · have narrow : NarrowBreaks text opts := Or.inl blank
    rw [if_pos blank, if_pos narrow, chunks_of_blank blank]
  · have positive : 0 < maxLinesPerFlush := by decide
    have body_width : innerMax opts ≠ 0 := Nat.ne_of_gt (innerMax_pos opts)
    rw [if_neg blank, capLines_eq positive]
    simp only [Option.bind_eq_bind, Option.bind_some, splitIntoCharChunks, dif_neg body_width,
      splitLoop_eq, finishChunks_eq]
    by_cases wide : ((bodyCutter opts).windows (cappedText text)).any wideBreak = true
    · have not_narrow : ¬ NarrowBreaks text opts := by
        obtain ⟨window, member, breaks⟩ := List.any_eq_true.mp wide
        rintro (is_blank | narrow)
        · exact blank is_blank
        · simp [narrow window member] at breaks
      rw [if_neg not_narrow]
      simp only [bodyCutter, cappedText] at wide
      simp [wide]
    · have narrow : NarrowBreaks text opts := by
        right
        intro window member
        cases breaks : wideBreak window with
        | false => rfl
        | true => exact (wide (List.any_eq_true.mpr ⟨window, member, breaks⟩)).elim
      rw [if_pos narrow]
      simp only [bodyCutter, cappedText] at wide
      simp [wide, visiblePieces, bodyCutter, cappedText]

/-- What a completed call returns. -/
theorem eq_of_chunksFromText {text : Text} {opts : ChunkerOpts} {chunks : List Text}
    (returned : chunksFromText text opts = some chunks) :
    chunks = numberStrings opts (cappedStrings opts (visiblePieces text opts)) := by
  rw [chunksFromText_eq] at returned
  split at returned
  · exact (Option.some.inj returned).symm
  · simp at returned

end Loraterm
