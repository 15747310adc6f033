import Loraterm.ChunkerCalls
import Loraterm.Library.UnitCut

/-!
# Blocks of complete units

The pushed bytes are read as a stream of units, characters or escape sequences, in which a newline
byte is always a unit of its own.  A push never cuts a unit; a silence flush does when the bytes
pushed so far end inside one.  When no silence flush does, every block is a run of complete units.
-/

namespace Loraterm

open Utf8Text UnitCut

variable {α : Type*}

/-- Encodings of units of at least one byte, with the newline byte as a unit of its own. -/
structure LineUnits (encode : α → List UInt8) : Prop where
  nonempty : ∀ unit, encode unit ≠ []
  newline_alone : ∀ unit, 0x0A ∈ encode unit → encode unit = [0x0A]

namespace Chunker

/-- The texts that a sequence of calls hands to `chunks_from_text`. -/
def handedTexts (strip : List UInt8 → List UInt8) (chunker : Chunker)
    (calls : List ChunkerCall) : List Text := (chunker.blocks calls).map (blockText strip)

/-- Every silence flush that drains comes between two units of the stream. -/
def PausesBetween (encode : α → List UInt8) (units : List α) (chunker : Chunker)
    (calls : List ChunkerCall) : Prop :=
  ∀ before now after, calls = before ++ .maybeFlush now :: after →
    (chunker.afterAll before).silent now = true →
      Between encode units (chunker.buf ++ pushedBytes before)

variable {encode : α → List UInt8}

/-- The calls after one that drained complete units. -/
theorem PausesBetween.later {chunker : Chunker} {call : ChunkerCall} {calls : List ChunkerCall}
    {before after : List α}
    (paused : PausesBetween encode (before ++ after) chunker (call :: calls))
    (drained : (chunker.drained call).toList.flatten = stream encode before) :
    PausesBetween encode after (chunker.after call) calls := by
  intro earlier now later calls_eq silent
  have between := paused (call :: earlier) now later (by rw [calls_eq]; rfl) silent
  have pushed_eq : pushedBytes (call :: earlier) = call.pushed ++ pushedBytes earlier := rfl
  rw [pushed_eq, ← List.append_assoc, ← drained_append_buf, drained, List.append_assoc] at between
  exact between.cancel

/-- What one call drains is a run of complete units. -/
theorem drained_between {chunker : Chunker} {call : ChunkerCall} {calls : List ChunkerCall}
    {units : List α} (lineUnits : LineUnits encode) (running : call ≠ .flushForce)
    (stream_eq : chunker.buf ++ pushedBytes (call :: calls) = stream encode units)
    (paused : PausesBetween encode units chunker (call :: calls)) :
    Between encode units (chunker.drained call).toList.flatten := by
  cases call with
  | push bytes now =>
      rw [drained]
      cases cut : splitCommitted (chunker.buf ++ bytes) with
      | none => exact between_nil units
      | some parts =>
          obtain ⟨buf_eq, last, -⟩ := splitCommitted_eq_some cut
          have stream_cut : stream encode units = parts.1 ++ (parts.2 ++ pushedBytes calls) := by
            rw [← List.append_assoc, ← buf_eq, ← stream_eq, List.append_assoc]
            rfl
          simpa using
            between_of_separator (fun unit _ => lineUnits.newline_alone unit) stream_cut last
  | maybeFlush now =>
      rw [drained]
      cases silent : chunker.silent now with
      | false => exact between_nil units
      | true => simpa [pushedBytes] using paused [] now calls rfl silent
  | flushForce => exact (running rfl).elim

/-- When no silence flush cuts a unit, all blocks are runs of complete units. -/
theorem whole_blocks {chunker : Chunker} {calls : List ChunkerCall} {units : List α}
    (lineUnits : LineUnits encode) (running : ∀ call ∈ calls, call ≠ .flushForce)
    (stream_eq : chunker.buf ++ pushedBytes calls = stream encode units)
    (paused : PausesBetween encode units chunker calls) :
    Whole encode units (chunker.blocks (calls ++ [.flushForce])) := by
  induction calls generalizing chunker units with
  | nil =>
      have buf_eq : chunker.buf = stream encode units := by simpa [pushedBytes] using stream_eq
      simpa [blocks, drained, buf_eq] using @whole_singleton _ _ encode units
  | cons call calls ih =>
      obtain ⟨before, after, rfl, drained_eq⟩ :=
        drained_between lineUnits (running call (by simp)) stream_eq paused
      have rest_eq : (chunker.after call).buf ++ pushedBytes calls = stream encode after := by
        have pushed_eq : pushedBytes (call :: calls) = call.pushed ++ pushedBytes calls := rfl
        rw [pushed_eq, ← List.append_assoc, ← drained_append_buf, stream_append, ← drained_eq,
          List.append_assoc, List.append_cancel_left_eq] at stream_eq
        exact stream_eq
      have rest_whole := ih (fun other member => running other (by simp [member])) rest_eq
        (paused.later drained_eq.symm)
      rw [List.cons_append, blocks]
      cases drained : chunker.drained call with
      | none =>
          rw [drained] at drained_eq
          have before_eq : before = [] := stream_eq_nil lineUnits.nonempty drained_eq
          subst before_eq
          exact rest_whole
      | some block =>
          have block_eq : block = stream encode before := by simpa [drained] using drained_eq.symm
          rw [block_eq]
          exact rest_whole.cons

end Chunker

end Loraterm
