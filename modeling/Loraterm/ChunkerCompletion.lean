import Loraterm.ChunkPieces
import Loraterm.Chunker

/-!
# When chunking completes

The only panic of the pipeline is a break one byte into a wide white-space character.  It is
reachable from PTY output through every flush of the chunker, and absent when all white space is
ASCII.
-/

namespace Loraterm

open Utf8Text WindowCut

/-! ## Texts -/

theorem isSome_chunksFromText (text : Text) (opts : ChunkerOpts) :
    (chunksFromText text opts).isSome = true ↔ NarrowBreaks text opts := by
  rw [chunksFromText_eq]
  split <;> simp_all

/-- No window of a text whose white space is all ASCII breaks inside a character. -/
theorem wideBreak_of_ascii {text : Text} (ascii : AsciiWhitespace text) (opts : ChunkerOpts) :
    ∀ window ∈ (bodyCutter opts).windows (cappedText text), wideBreak window = false := by
  intro window member
  apply wideBreak_of_asciiWhitespace
  intro char shown
  exact asciiWhitespace_cappedText ascii char
    ((bodyCutter opts).mem_of_mem_windows _ window member char shown)

/-- Texts whose white space is all ASCII break narrowly. -/
theorem narrowBreaks_of_ascii {text : Text} (ascii : AsciiWhitespace text) (opts : ChunkerOpts) :
    NarrowBreaks text opts := .inr (wideBreak_of_ascii ascii opts)

/-! ## The chunker -/

namespace Chunker

variable (strip : List UInt8 → List UInt8) (chunker : Chunker)

theorem isSome_drainAll :
    (chunker.drainAll strip).isSome = true ↔
      NarrowBreaks (blockText strip chunker.buf) chunker.opts := by
  rw [drainAll, Option.isSome_map, isSome_chunksFromText]

theorem isSome_push (bytes : List UInt8) (now : Nat) :
    (chunker.push strip bytes now).isSome = true ↔
      ∀ head tail, splitCommitted (chunker.buf ++ bytes) = some (head, tail) →
        NarrowBreaks (blockText strip head) chunker.opts := by
  rw [push_eq]
  cases cut : splitCommitted (chunker.buf ++ bytes) with
  | none => simp
  | some parts =>
      obtain ⟨head, tail⟩ := parts
      simp [isSome_chunksFromText]

theorem isSome_maybeFlush (now : Nat) :
    (chunker.maybeFlush strip now).isSome = true ↔
      ∀ instant, chunker.buf ≠ [] → chunker.lastPush = some instant →
        chunker.opts.flushSilence ≤ now - instant →
          NarrowBreaks (blockText strip chunker.buf) chunker.opts := by
  rw [maybeFlush]
  cases empty : chunker.buf.isEmpty with
  | true => simp [List.isEmpty_iff.mp empty]
  | false =>
      have nonempty : chunker.buf ≠ [] := by
        intro is_nil
        simp [is_nil] at empty
      cases pushed : chunker.lastPush with
      | none => simp
      | some instant =>
          by_cases silent : chunker.opts.flushSilence ≤ now - instant
          · simp [silent, nonempty, isSome_drainAll]
          · simp [silent]

end Chunker

/-- `chunks_from_text` and every operation of the chunker complete exactly when no break of the
text they drain falls inside a wide white-space character. -/
theorem chunking_completes_iff (text : Text) (opts : ChunkerOpts)
    (strip : List UInt8 → List UInt8) (chunker : Chunker) (bytes : List UInt8) (now : Nat) :
    ((chunksFromText text opts).isSome = true ↔ NarrowBreaks text opts) ∧
      ((chunker.push strip bytes now).isSome = true ↔
        ∀ head tail, Chunker.splitCommitted (chunker.buf ++ bytes) = some (head, tail) →
          NarrowBreaks (blockText strip head) chunker.opts) ∧
      ((chunker.maybeFlush strip now).isSome = true ↔
        ∀ instant, chunker.buf ≠ [] → chunker.lastPush = some instant →
          chunker.opts.flushSilence ≤ now - instant →
            NarrowBreaks (blockText strip chunker.buf) chunker.opts) ∧
      ((chunker.flushForce strip).isSome = true ↔
        NarrowBreaks (blockText strip chunker.buf) chunker.opts) :=
  ⟨isSome_chunksFromText text opts, chunker.isSome_push strip bytes now,
    chunker.isSome_maybeFlush strip now, chunker.isSome_drainAll strip⟩

/-- An ideographic space at the end of a full window makes the splitter slice inside it. -/
theorem chunking_can_panic :
    ¬ ∀ text opts, (chunksFromText text opts).isSome = true := by
  intro completes
  have panics : (chunksFromText
      (List.replicate 19 'a' ++ [Char.ofNat 0x3000, 'b'])
      { ChunkerOpts.default with maxChars := 20, numberChunks := false }).isSome = false := by
    decide +kernel
  simp [completes] at panics

end Loraterm
