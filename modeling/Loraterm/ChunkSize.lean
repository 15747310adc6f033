import Loraterm.ChunkPieces

/-!
# How long a chunk gets

Ten characters are reserved for the prefix `[i/N] `, whose length grows with the digits of `i` and
`N`, and the truncation marker is not measured at all.  The size limit holds exactly when neither
outgrows its room.
-/

namespace Loraterm

open Utf8Text WindowCut

theorem length_chunkPrefix (index total : Nat) :
    (chunkPrefix index total).length = 4 + (decimal index).length + (decimal total).length := by
  simp [chunkPrefix]
  omega

theorem length_burstMarker (dropped : Nat) :
    (burstMarker dropped).length = 41 + (decimal dropped).length := by
  have head_length : burstMarkerHead.length = 20 := by decide
  have tail_length : burstMarkerTail.length = 21 := by decide
  rw [burstMarker, List.length_append, List.length_append, head_length, tail_length]
  omega

/-- A piece has at most the characters of its window. -/
theorem length_le_of_mem_visiblePieces {text : Text} {opts : ChunkerOpts} {piece : Text}
    (member : piece ∈ visiblePieces text opts) : piece.length ≤ innerMax opts := by
  obtain ⟨whole, whole_mem, rfl⟩ := List.mem_map.mp (List.mem_filter.mp member).1
  have fits := (bodyCutter opts).length_le_of_mem_pieces _ whole whole_mem
  have trimmed := (List.rdropWhile_prefix isNewline (l := whole)).length_le
  exact trimmed.trans fits

/-! ## Lengths of the returned strings -/

/-- Number of strings returned for some visible pieces. -/
def stringCount (opts : ChunkerOpts) (pieces : List Text) : Nat :=
  min pieces.length (opts.burstChunkCap + 1)

/-- Characters spent on the prefix of the string at `index`. -/
def prefixLength (opts : ChunkerOpts) (total index : Nat) : Nat :=
  if opts.numberChunks && 1 < total then
    4 + (decimal (index + 1)).length + (decimal total).length
  else
    0

theorem numberStrings_fit_iff (opts : ChunkerOpts) (strings : List Text) (limit : Nat) :
    (∀ chunk ∈ numberStrings opts strings, chunk.length ≤ limit) ↔
      ∀ index body, strings[index]? = some body →
        prefixLength opts strings.length index + body.length ≤ limit := by
  unfold numberStrings prefixLength
  split
  · constructor
    · intro fit index body at_index
      have member : chunkPrefix (index + 1) strings.length ++ body ∈
          strings.mapIdx fun index body => chunkPrefix (index + 1) strings.length ++ body := by
        apply List.mem_of_getElem? (i := index)
        simp [at_index]
      have bound := fit _ member
      rwa [List.length_append, length_chunkPrefix] at bound
    · intro fit chunk member
      obtain ⟨index, inside, rfl⟩ := List.mem_mapIdx.mp member
      have bound := fit index _ (List.getElem?_eq_getElem inside)
      rwa [List.length_append, length_chunkPrefix]
  · constructor
    · intro fit index body at_index
      have bound := fit body (List.mem_of_getElem? at_index)
      omega
    · intro fit chunk member
      obtain ⟨index, at_index⟩ := List.getElem?_of_mem member
      have bound := fit index chunk at_index
      omega

/-- The strings are the first pieces, then the marker. -/
theorem getElem?_cappedStrings (opts : ChunkerOpts) (pieces : List Text) (index : Nat) :
    (cappedStrings opts pieces)[index]? =
      if index < opts.burstChunkCap then
        pieces[index]?
      else if index = opts.burstChunkCap ∧ opts.burstChunkCap < pieces.length then
        some (burstMarker (pieces.length - opts.burstChunkCap))
      else
        none := by
  unfold cappedStrings
  by_cases capped : opts.burstChunkCap < pieces.length
  · have taken : (pieces.take opts.burstChunkCap).length = opts.burstChunkCap := by
      simp only [List.length_take]
      omega
    by_cases before : index < opts.burstChunkCap
    · rw [if_pos capped, if_pos before, List.getElem?_append_left (by omega),
        List.getElem?_take_of_lt before]
    · rw [if_pos capped, if_neg before, List.getElem?_append_right (by omega), taken]
      by_cases last : index = opts.burstChunkCap
      · simp [last, capped]
      · obtain ⟨beyond, beyond_eq⟩ : ∃ beyond, index - opts.burstChunkCap = beyond + 1 :=
          ⟨index - opts.burstChunkCap - 1, by omega⟩
        simp [beyond_eq, last]
  · rw [if_neg capped, List.append_nil, List.take_of_length_le (Nat.not_lt.mp capped)]
    by_cases before : index < opts.burstChunkCap
    · rw [if_pos before]
    · rw [if_neg before, if_neg fun marker => capped marker.2, List.getElem?_eq_none (by omega)]

/-! ## The limit -/

/-- The prefixes outgrow their reserve only on pieces shorter than their window by the excess, and
the marker with its prefix fits the limit by itself. -/
structure SizesFit (opts : ChunkerOpts) (pieces : List Text) : Prop where
  /-- The reserve of ten characters, four of them punctuation, and the slack of the piece. -/
  bodies : opts.numberChunks = true → 1 < stringCount opts pieces →
    ∀ (index : Nat) (piece : Text), index < opts.burstChunkCap → pieces[index]? = some piece →
      (decimal (index + 1)).length + (decimal (stringCount opts pieces)).length ≤
        6 + (innerMax opts - piece.length)
  /-- The marker of a capped burst. -/
  marker : opts.burstChunkCap < pieces.length →
    prefixLength opts (stringCount opts pieces) opts.burstChunkCap + 41 +
      (decimal (pieces.length - opts.burstChunkCap)).length ≤ opts.maxChars

/-- Every returned string respects the limit exactly when prefixes and marker fit. -/
theorem chunk_sizes_iff {text : Text} {opts : ChunkerOpts} {chunks : List Text}
    (returned : chunksFromText text opts = some chunks)
    (above_floor : (if opts.numberChunks then 30 else 20) ≤ opts.maxChars) :
    (∀ chunk ∈ chunks, chunk.length ≤ opts.maxChars) ↔
      SizesFit opts (visiblePieces text opts) := by
  have body_fits : ∀ (index : Nat) (piece : Text), (visiblePieces text opts)[index]? = some piece →
      piece.length ≤ innerMax opts := fun index piece at_index =>
    length_le_of_mem_visiblePieces (List.mem_of_getElem? at_index)
  rw [eq_of_chunksFromText returned, numberStrings_fit_iff, length_cappedStrings]
  generalize visiblePieces text opts = pieces at body_fits
  constructor
  · intro fit
    constructor
    · intro numbering several index piece before at_index
      have bound := fit index piece (by rw [getElem?_cappedStrings, if_pos before, at_index])
      have body_bound := body_fits index piece at_index
      have many : 1 < min pieces.length (opts.burstChunkCap + 1) := several
      simp only [prefixLength, numbering, many, decide_true, Bool.and_self, if_true, innerMax]
        at bound body_bound above_floor ⊢
      unfold stringCount
      omega
    · intro capped
      have bound := fit opts.burstChunkCap _ (by
        rw [getElem?_cappedStrings, if_neg (Nat.lt_irrefl _), if_pos ⟨rfl, capped⟩])
      rw [length_burstMarker] at bound
      unfold stringCount
      omega
  · intro sizes index body at_index
    rw [getElem?_cappedStrings] at at_index
    split at at_index
    · rename_i before
      have body_bound := body_fits index body at_index
      unfold prefixLength
      split
      · rename_i numbered
        simp only [Bool.and_eq_true, decide_eq_true_eq] at numbered
        have reserve := sizes.bodies numbered.1 numbered.2 index body before at_index
        simp only [innerMax, numbered.1, if_true, stringCount]
          at body_bound reserve above_floor
        omega
      · simp only [innerMax] at body_bound
        split at above_floor <;> simp_all; omega
    · split at at_index
      · rename_i last
        have room := sizes.marker last.2
        obtain rfl := Option.some.inj at_index
        rw [length_burstMarker, last.1]
        unfold stringCount at room
        omega
      · simp at at_index

theorem length_decimal_le {number : Nat} (small : number ≤ 999) : (decimal number).length ≤ 3 := by
  rw [decimal, Nat.length_toDigits_le_iff (by decide) (by decide)]
  omega

/-- Up to 999 strings every prefix stays within its reserve. -/
theorem sizesFit_of_few {opts : ChunkerOpts} {pieces : List Text}
    (few : stringCount opts pieces ≤ 999)
    (marker : opts.burstChunkCap < pieces.length →
      prefixLength opts (stringCount opts pieces) opts.burstChunkCap + 41 +
        (decimal (pieces.length - opts.burstChunkCap)).length ≤ opts.maxChars) :
    SizesFit opts pieces where
  bodies := by
    intro _ _ index piece before at_index
    have inside := (List.getElem?_eq_some_iff.mp at_index).1
    have index_digits : (decimal (index + 1)).length ≤ 3 := by
      apply length_decimal_le
      unfold stringCount at few
      omega
    have total_digits := length_decimal_le few
    omega
  marker := marker

/-- One piece of a short text within a generous limit. -/
theorem chunk_sizes_short :
    (∀ chunk ∈ ["ls".toList], chunk.length ≤ 120) ↔
      SizesFit ChunkerOpts.default (visiblePieces "ls\n".toList ChunkerOpts.default) :=
  @chunk_sizes_iff "ls\n".toList ChunkerOpts.default ["ls".toList] (by decide +kernel) (by decide)

/-- With a cap of zero a limit of twenty is exceeded by the marker alone. -/
theorem marker_exceeds_limit :
    ¬ ∀ text opts chunks, chunksFromText text opts = some chunks →
      (if opts.numberChunks then 30 else 20) ≤ opts.maxChars →
        ∀ chunk ∈ chunks, chunk.length ≤ opts.maxChars := by
  intro fits
  have bound := fits "ls\n".toList
    { ChunkerOpts.default with maxChars := 20, numberChunks := false, burstChunkCap := 0 }
    [burstMarker 1] (by decide +kernel) (by decide) (burstMarker 1) List.mem_cons_self
  revert bound
  decide +kernel

end Loraterm
