import Loraterm.Library.LineSplit
import Loraterm.Library.Utf8Text

/-!
# From a text blob to chunks

The pure half of the chunking pipeline: `chunks_from_text` and the passes it composes.  Every
slice is taken at a byte offset; `none` is a panic of the source.
-/

namespace Loraterm

open Utf8Text

/-- Hard cap on lines emitted per single chunker flush. -/
def maxLinesPerFlush : Nat := 10

/-- Configuration knobs of the chunker. -/
structure ChunkerOpts where
  /-- Most characters per chunk. -/
  maxChars : Nat
  /-- Prepend `[i/N] ` to multi-chunk outputs. -/
  numberChunks : Bool
  /-- Silence threshold, in nanoseconds. -/
  flushSilence : Nat
  /-- Most chunks per flush before the truncation marker. -/
  burstChunkCap : Nat
  deriving DecidableEq, Repr

/-- The default knobs. -/
def ChunkerOpts.default : ChunkerOpts where
  maxChars := 120
  numberChunks := true
  flushSilence := 600000000
  burstChunkCap := 50

/-- The newline character. -/
def isNewline (char : Char) : Bool := char == '\n'

/-- The blanks dropped after a cut: space and tab. -/
def isBlank (char : Char) : Bool := char == ' ' || char == '\t'

/-! ## Blank lines -/

/-- The loop of `collapse_blank_lines`: blank lines past the second of a run are dropped. -/
def collapseLoop : Nat → List Text → Text
  | _, [] => []
  | blankRun, line :: lines =>
      if (trim line).isEmpty then
        if blankRun + 1 ≤ 2 then
          line ++ collapseLoop (blankRun + 1) lines
        else
          collapseLoop (blankRun + 1) lines
      else
        line ++ collapseLoop 0 lines

/-- Cut every run of blank lines to two. -/
def collapseBlankLines (text : Text) : Text :=
  collapseLoop 0 (LineSplit.splitInclusive isNewline text)

/-! ## The line cap -/

/-- The literal marker line of a capped text. -/
def lineMarker : Text := "[...]\n".toList

/-- The byte scan of `cap_lines`: the offset just after the newline that makes `maxLines`. -/
def lineCut (maxLines : Nat) : Nat → Nat → List UInt8 → Option Nat
  | _, _, [] => none
  | seen, offset, byte :: rest =>
      if byte = 0x0A then
        if seen + 1 = maxLines then some (offset + 1)
        else lineCut maxLines (seen + 1) (offset + 1) rest
      else
        lineCut maxLines seen (offset + 1) rest

/-- Lines of a text as `cap_lines` counts them. -/
def totalLines (text : Text) : Nat :=
  (bytes text).count 0x0A + if !text.isEmpty && text.getLast? != some '\n' then 1 else 0

/-- Keep only the first `maxLines` lines and mark the cut with a literal line. -/
def capLines (text : Text) (maxLines : Nat) : Option Text :=
  if totalLines text ≤ maxLines then
    some text
  else
    let cutAt := (lineCut maxLines 0 0 (bytes text)).getD (byteLen text)
    (splitAt? text cutAt).map fun cut => cut.1 ++ lineMarker

/-! ## Window splitting -/

/-- Byte offset of the `maxChars`-th character, or the end of the text. -/
def windowEndByte (rest : Text) (maxChars : Nat) : Nat :=
  ((charIndices rest)[maxChars]?.map Prod.fst).getD (byteLen rest)

/-- Where one turn breaks: one byte past the start of the last newline, else one byte past the
start of the last white space, else the end of the window. -/
def breakAtByte (window : Text) (windowEnd : Nat) : Nat :=
  (((rfind isNewline window).map (· + 1)).or
    ((rfind isWhitespace window).map (· + 1))).getD windowEnd

/-- One turn of the splitting loop on a remainder longer than the window. -/
def splitTurn (rest : Text) (maxChars : Nat) : Option (Text × Text) := do
  let windowEnd := windowEndByte rest maxChars
  let (window, _) ← splitAt? rest windowEnd
  splitAt? rest (breakAtByte window windowEnd)

theorem windowEndByte_of_long {rest : Text} {maxChars : Nat} (long : maxChars < rest.length) :
    windowEndByte rest maxChars = byteLen (rest.take maxChars) := by
  simp [windowEndByte, getElem?_charIndices, List.getElem?_eq_getElem long]

theorem splitTurn_of_long {rest : Text} {maxChars : Nat} (long : maxChars < rest.length) :
    splitTurn rest maxChars =
      splitAt? rest
        (breakAtByte (rest.take maxChars) (byteLen (rest.take maxChars))) := by
  have window_cut := splitAt?_append (rest.take maxChars) (rest.drop maxChars)
  rw [List.take_append_drop] at window_cut
  simp [splitTurn, windowEndByte_of_long long, window_cut]

theorem breakAtByte_pos {window : Text} (nonempty : window ≠ []) :
    0 < breakAtByte window (byteLen window) := by
  unfold breakAtByte
  cases rfind isNewline window with
  | some found => simp
  | none =>
      cases rfind isWhitespace window with
      | some found => simp
      | none => simpa using byteLen_pos nonempty

/-- Every turn strictly consumes its remainder. -/
theorem splitTurn_shorter {rest head tail : Text} {maxChars : Nat} (positive : 0 < maxChars)
    (long : maxChars < rest.length) (turn : splitTurn rest maxChars = some (head, tail)) :
    (trimStartMatches isBlank tail).length < rest.length := by
  rw [splitTurn_of_long long] at turn
  obtain ⟨rest_eq, head_len⟩ := splitAt?_eq_some turn
  have window_ne : rest.take maxChars ≠ [] := by
    intro empty
    have := congrArg List.length empty
    simp only [List.length_take, List.length_nil] at this
    omega
  have head_ne : head ≠ [] := by
    rintro rfl
    have := breakAtByte_pos window_ne
    simp only [byteLen_nil] at head_len
    omega
  have trimmed := (List.dropWhile_suffix isBlank (l := tail)).length_le
  have head_pos := List.length_pos_iff.mpr head_ne
  have lengths := congrArg List.length rest_eq
  simp only [List.length_append] at lengths
  simp only [trimStartMatches]
  omega

/-- The loop of `split_into_char_chunks`. -/
def splitLoop (maxChars : Nat) (positive : 0 < maxChars) (rest : Text) : Option (List Text) :=
  if rest.isEmpty then
    some []
  else if _ : rest.length ≤ maxChars then
    some [trimEndMatches isNewline rest]
  else
    match _ : splitTurn rest maxChars with
    | none => none
    | some (head, tail) =>
        (splitLoop maxChars positive (trimStartMatches isBlank tail)).map
          (trimEndMatches isNewline head :: ·)
termination_by rest.length
decreasing_by exact splitTurn_shorter positive (by omega) ‹_›

/-- Split a text into slices of at most `maxChars` characters each. -/
def splitIntoCharChunks (text : Text) (maxChars : Nat) : Option (List Text) :=
  if zero : maxChars = 0 then
    some [text]
  else
    splitLoop maxChars (Nat.pos_of_ne_zero zero) text

/-! ## Numbering and the burst cap -/

/-- A number in decimal. -/
def decimal (number : Nat) : Text := Nat.toDigits 10 number

/-- The prefix `[i/N] `. -/
def chunkPrefix (index total : Nat) : Text :=
  '[' :: decimal index ++ '/' :: decimal total ++ "] ".toList

/-- The burst marker up to its count. -/
def burstMarkerHead : Text := "[output truncated — ".toList

/-- The burst marker after its count. -/
def burstMarkerTail : Text := " more chunks dropped]".toList

/-- The marker that stands for the chunks the burst cap dropped. -/
def burstMarker (dropped : Nat) : Text := burstMarkerHead ++ decimal dropped ++ burstMarkerTail

/-- Characters of a chunk left for its body. -/
def innerMax (opts : ChunkerOpts) : Nat :=
  let prefixBudget := if opts.numberChunks then 10 else 0
  max (opts.maxChars - prefixBudget) 20

/-- The tail of `chunks_from_text`: drop blank pieces, enforce the burst cap, number. -/
def finishChunks (opts : ChunkerOpts) (split : List Text) : List Text :=
  let rawChunks := split.filter fun chunk => !(trim chunk).isEmpty
  let droppedCount : Option Nat :=
    if opts.burstChunkCap < rawChunks.length then some (rawChunks.length - opts.burstChunkCap)
    else none
  let kept := if droppedCount.isSome then rawChunks.take opts.burstChunkCap else rawChunks
  let n := kept.length + if droppedCount.isSome then 1 else 0
  let numbered := opts.numberChunks && 1 < n
  let out :=
    if numbered then kept.mapIdx fun index body => chunkPrefix (index + 1) n ++ body else kept
  match droppedCount with
  | none => out
  | some dropped =>
      out ++ [if numbered then chunkPrefix n n ++ burstMarker dropped else burstMarker dropped]

/-- Convert a normalized text blob into chunks. -/
def chunksFromText (text : Text) (opts : ChunkerOpts) : Option (List Text) :=
  if (trim text).isEmpty then
    some []
  else do
    let cleaned := collapseBlankLines text
    let lineCapped ← capLines cleaned maxLinesPerFlush
    let rawChunks ← splitIntoCharChunks lineCapped (innerMax opts)
    some (finishChunks opts rawChunks)

end Loraterm
