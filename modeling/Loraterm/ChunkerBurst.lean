import Loraterm.ChunkSize
import Loraterm.Chunker

/-!
# The burst cap over a whole burst

The cap is enforced inside each flush, and every push that carries a newline is a flush of its
own.  A burst stays within one cap exactly when its flushes together do, or when a single flush
shows anything at all.
-/

namespace Loraterm

open Utf8Text

namespace Chunker

variable (strip : List UInt8 → List UInt8)

/-- Push a sequence of reads, each at its instant. -/
def pushAll : Chunker → List (List UInt8 × Nat) → Option (Chunker × List Text)
  | chunker, [] => some (chunker, [])
  | chunker, (bytes, now) :: later => do
      let (pushed, chunks) ← chunker.push strip bytes now
      let (final, others) ← pushAll pushed later
      some (final, chunks ++ others)

/-- One PTY output burst: pushes, then a silence flush. -/
def burst (chunker : Chunker) (pushes : List (List UInt8 × Nat)) (silence : Nat) :
    Option (Chunker × List Text) := do
  let (pushed, chunks) ← chunker.pushAll strip pushes
  let (drained, others) ← pushed.maybeFlush strip silence
  some (drained, chunks ++ others)

end Chunker

/-- The blocks a burst drains: one for each push that completes a line, and what is left. -/
def burstBlocks : List UInt8 → List (List UInt8 × Nat) → List (List UInt8)
  | buf, [] => if buf.isEmpty then [] else [buf]
  | buf, (bytes, _) :: later =>
      match Chunker.splitCommitted (buf ++ bytes) with
      | none => burstBlocks (buf ++ bytes) later
      | some (head, tail) => head :: burstBlocks tail later

/-- Visible pieces of one drained block. -/
def blockPieces (strip : List UInt8 → List UInt8) (opts : ChunkerOpts) (block : List UInt8) :
    List Text :=
  visiblePieces (blockText strip block) opts

/-- The escape stripper leaves printable ASCII and newlines unchanged. -/
def KeepsPrintable (strip : List UInt8 → List UInt8) : Prop :=
  ∀ bytes : List UInt8, (∀ byte ∈ bytes, byte = 0x0A ∨ 0x20 ≤ byte ∧ byte < 0x7F) →
    strip bytes = bytes

section Burst

variable {strip : List UInt8 → List UInt8}

theorem length_of_chunksFromText {text : Text} {opts : ChunkerOpts} {chunks : List Text}
    (returned : chunksFromText text opts = some chunks) :
    chunks.length = stringCount opts (visiblePieces text opts) := by
  rw [eq_of_chunksFromText returned, length_numberStrings, length_cappedStrings]
  rfl

theorem burst_nil (chunker : Chunker) (silence : Nat) :
    chunker.burst strip [] silence = chunker.maybeFlush strip silence := by
  cases flushed : chunker.maybeFlush strip silence <;>
    simp [Chunker.burst, Chunker.pushAll, flushed]

/-- A burst is its first push, then the burst from there. -/
theorem burst_cons (chunker : Chunker) (bytes : List UInt8) (now : Nat)
    (later : List (List UInt8 × Nat)) (silence : Nat) :
    chunker.burst strip ((bytes, now) :: later) silence =
      (chunker.push strip bytes now).bind fun pushed =>
        (pushed.1.burst strip later silence).map fun rest => (rest.1, pushed.2 ++ rest.2) := by
  simp only [Chunker.burst, Chunker.pushAll, Option.bind_eq_bind, Option.bind_assoc,
    Option.map_eq_bind]
  cases chunker.push strip bytes now with
  | none => rfl
  | some pushed =>
      simp only [Option.bind_some]
      cases Chunker.pushAll strip pushed.1 later with
      | none => rfl
      | some collected =>
          simp only [Option.bind_some]
          cases collected.1.maybeFlush strip silence with
          | none => rfl
          | some drained => simp [List.append_assoc]

/-- The silence flush drains what is left of the burst. -/
theorem length_maybeFlush {chunker final : Chunker} {silence : Nat} {chunks : List Text}
    (buffered : chunker.buf ≠ [] → ∃ instant, chunker.lastPush = some instant ∧
      instant + chunker.opts.flushSilence ≤ silence)
    (returned : chunker.maybeFlush strip silence = some (final, chunks)) :
    chunks.length = ((burstBlocks chunker.buf []).map fun block =>
      stringCount chunker.opts (blockPieces strip chunker.opts block)).sum := by
  cases empty : chunker.buf.isEmpty with
  | true =>
      have no_chunks : final = chunker ∧ chunks = [] := by
        simpa [Chunker.maybeFlush, empty, eq_comm] using returned
      simp [burstBlocks, empty, no_chunks]
  | false =>
      have nonempty : chunker.buf ≠ [] := by
        intro is_nil
        simp [is_nil] at empty
      obtain ⟨instant, pushed, silent⟩ := buffered nonempty
      have elapsed : chunker.opts.flushSilence ≤ silence - instant := by omega
      have drained : chunker.drainAll strip = some (final, chunks) := by
        simpa [Chunker.maybeFlush, empty, pushed, elapsed] using returned
      obtain ⟨some_chunks, completed, pair_eq⟩ := Option.map_eq_some_iff.mp drained
      obtain rfl : some_chunks = chunks := congrArg Prod.snd pair_eq
      simp [burstBlocks, empty, length_of_chunksFromText completed, blockPieces]

/-- A burst returns as many strings as its blocks do one by one. -/
theorem burst_length {chunker final : Chunker} {pushes : List (List UInt8 × Nat)} {silence : Nat}
    {chunks : List Text}
    (buffered : chunker.buf ≠ [] → ∃ instant, chunker.lastPush = some instant ∧
      instant + chunker.opts.flushSilence ≤ silence)
    (quiet : ∀ push ∈ pushes, push.2 + chunker.opts.flushSilence ≤ silence)
    (returned : chunker.burst strip pushes silence = some (final, chunks)) :
    chunks.length = ((burstBlocks chunker.buf pushes).map fun block =>
      stringCount chunker.opts (blockPieces strip chunker.opts block)).sum := by
  induction pushes generalizing chunker chunks with
  | nil =>
      rw [burst_nil] at returned
      exact length_maybeFlush buffered returned
  | cons push later ih =>
      obtain ⟨bytes, now⟩ := push
      have now_quiet := quiet (bytes, now) List.mem_cons_self
      have later_quiet : ∀ push ∈ later, push.2 + chunker.opts.flushSilence ≤ silence :=
        fun push member => quiet push (List.mem_cons_of_mem _ member)
      rw [burst_cons] at returned
      obtain ⟨⟨pushed, first⟩, pushing, returned⟩ := Option.bind_eq_some_iff.mp returned
      obtain ⟨⟨_, others⟩, remaining, pair_eq⟩ := Option.map_eq_some_iff.mp returned
      obtain ⟨rfl, rfl⟩ : _ = final ∧ first ++ others = chunks := by simpa using pair_eq
      rw [Chunker.push_eq] at pushing
      rw [burstBlocks]
      have resumed : pushed.opts = chunker.opts → pushed.lastPush = some now →
          others.length = ((burstBlocks pushed.buf later).map fun block =>
            stringCount chunker.opts (blockPieces strip chunker.opts block)).sum := by
        intro same_opts pushed_now
        rw [← same_opts] at now_quiet later_quiet ⊢
        exact ih (fun _ => ⟨now, pushed_now, now_quiet⟩) later_quiet remaining
      cases cut : Chunker.splitCommitted (chunker.buf ++ bytes) with
      | none =>
          obtain ⟨rfl, rfl⟩ : _ = pushed ∧ [] = first := by simpa [cut] using pushing
          simpa using resumed rfl rfl
      | some parts =>
          rw [cut] at pushing
          obtain ⟨some_chunks, completed, pushed_eq⟩ := Option.map_eq_some_iff.mp pushing
          obtain ⟨rfl, rfl⟩ : _ = pushed ∧ some_chunks = first := by simpa using pushed_eq
          rw [List.length_append, resumed rfl rfl, length_of_chunksFromText completed]
          simp [blockPieces]

end Burst

/-! ## Capping a sum part by part -/

theorem sum_min_le_sum (limit : Nat) (counts : List Nat) :
    (counts.map (min · limit)).sum ≤ counts.sum := by
  induction counts with
  | nil => simp
  | cons count counts ih =>
      simp only [List.map_cons, List.sum_cons]
      omega

theorem countP_pos_le_sum_min (limit : Nat) (counts : List Nat) :
    counts.countP (0 < ·) ≤ (counts.map (min · (limit + 1))).sum := by
  induction counts with
  | nil => simp
  | cons count counts ih =>
      rw [List.map_cons, List.sum_cons, List.countP_cons]
      split
      · rename_i positive
        have : 0 < count := by simpa using positive
        omega
      · omega

/-- A part larger than the cap fills it alone. -/
theorem sum_min_of_large {limit : Nat} {counts : List Nat}
    (large : ∃ count ∈ counts, limit + 1 < count) :
    limit + counts.countP (0 < ·) ≤ (counts.map (min · (limit + 1))).sum := by
  induction counts with
  | nil => simp at large
  | cons count counts ih =>
      rw [List.map_cons, List.sum_cons, List.countP_cons]
      have rest := countP_pos_le_sum_min limit counts
      rcases Nat.lt_or_ge (limit + 1) count with here | small
      · split <;> omega
      · have later : ∃ count ∈ counts, limit + 1 < count := by
          obtain ⟨found, member, exceeds⟩ := large
          obtain rfl | member := List.mem_cons.mp member
          · omega
          · exact ⟨found, member, exceeds⟩
        have filled := ih later
        split
        · rename_i positive
          have : 0 < count := by simpa using positive
          omega
        · omega

/-- At most one positive part is capped at most once. -/
theorem sum_min_of_few {limit : Nat} {counts : List Nat} (few : counts.countP (0 < ·) ≤ 1) :
    (counts.map (min · (limit + 1))).sum ≤ limit + 1 := by
  induction counts with
  | nil => simp
  | cons count counts ih =>
      rw [List.map_cons, List.sum_cons]
      rw [List.countP_cons] at few
      split at few
      · have none_left : counts.countP (0 < ·) = 0 := by omega
        have rest_zero : (counts.map (min · (limit + 1))).sum = 0 := by
          rw [List.countP_eq_zero] at none_left
          have all_zero : counts.map (min · (limit + 1)) = counts.map fun _ => 0 := by
            apply List.map_congr_left
            intro other member
            have := none_left other member
            simp only [decide_eq_true_eq] at this
            omega
          simp [all_zero]
        omega
      · rename_i zero
        have : count = 0 := by simpa using zero
        have rest := ih (by omega)
        omega

/-- Parts capped one by one stay within one cap exactly when at most one part is positive or the
whole sum stays within the cap. -/
theorem sum_min_le_iff (limit : Nat) (counts : List Nat) :
    (counts.map (min · (limit + 1))).sum ≤ limit + 1 ↔
      counts.countP (0 < ·) ≤ 1 ∨ counts.sum ≤ limit + 1 := by
  constructor
  · intro capped
    by_cases large : ∃ count ∈ counts, limit + 1 < count
    · have filled := sum_min_of_large large
      left
      omega
    · have uncapped : counts.map (min · (limit + 1)) = counts := by
        conv_rhs => rw [← List.map_id counts]
        apply List.map_congr_left
        intro count member
        have small : ¬ limit + 1 < count := fun exceeds => large ⟨count, member, exceeds⟩
        simp only [id]
        omega
      rw [uncapped] at capped
      exact Or.inr capped
  · rintro (few | total)
    · exact sum_min_of_few few
    · exact (sum_min_le_sum (limit + 1) counts).trans total

/-! ## The whole burst -/

/-- A burst from an empty buffer returns at most one cap of chunks exactly when at most one of its
blocks shows anything, or all its blocks together have at most one cap of pieces. -/
theorem burst_cap_iff {strip : List UInt8 → List UInt8} {chunker final : Chunker}
    {pushes : List (List UInt8 × Nat)} {silence : Nat} {chunks : List Text}
    (empty : chunker.buf = [])
    (quiet : ∀ push ∈ pushes, push.2 + chunker.opts.flushSilence ≤ silence)
    (returned : chunker.burst strip pushes silence = some (final, chunks)) :
    chunks.length ≤ chunker.opts.burstChunkCap + 1 ↔
      (burstBlocks [] pushes).countP (fun block => !decide (Blank (blockText strip block))) ≤ 1 ∨
        ((burstBlocks [] pushes).map fun block =>
          (blockPieces strip chunker.opts block).length).sum ≤
            chunker.opts.burstChunkCap + 1 := by
  have lengths := burst_length (fun nonempty => (nonempty empty).elim) quiet returned
  have capped := sum_min_le_iff chunker.opts.burstChunkCap
    ((burstBlocks [] pushes).map fun block => (blockPieces strip chunker.opts block).length)
  have shown : ∀ block, (0 < (blockPieces strip chunker.opts block).length) ↔
      ¬ Blank (blockText strip block) := by
    intro block
    rw [← visiblePieces_eq_nil_iff _ chunker.opts, List.length_pos_iff]
    rfl
  have shown_eq : (fun block => !decide (Blank (blockText strip block))) =
      (fun count => decide (0 < count)) ∘
        fun block => (blockPieces strip chunker.opts block).length := by
    funext block
    simp [shown block]
  rw [List.map_map, List.countP_map, ← shown_eq] at capped
  rw [lengths, empty]
  exact capped

/-- Two reads of one line each. -/
theorem burst_cap_two_reads :
    ["a".toList, "b".toList].length ≤ 50 + 1 ↔
      (burstBlocks [] [([97, 10], 0), ([98, 10], 1)]).countP
          (fun block => !decide (Blank (blockText id block))) ≤ 1 ∨
        ((burstBlocks [] [([97, 10], 0), ([98, 10], 1)]).map fun block =>
          (blockPieces id ChunkerOpts.default block).length).sum ≤ 50 + 1 :=
  @burst_cap_iff id (Chunker.new ChunkerOpts.default)
    { Chunker.new ChunkerOpts.default with lastPush := some 1 }
    [([97, 10], 0), ([98, 10], 1)] 600000001 ["a".toList, "b".toList] rfl (by decide)
    (by decide +kernel)

/-- Three reads of one short line each are three flushes, over a cap of one. -/
theorem burst_exceeds_cap :
    ¬ ∀ strip, KeepsPrintable strip → ∀ opts pushes silence final chunks,
      (pushes.map Prod.snd).IsChain (fun earlier later =>
        earlier ≤ later ∧ later < earlier + opts.flushSilence) →
      (∀ push ∈ pushes, push.2 + opts.flushSilence ≤ silence) →
      (Chunker.new opts).burst strip pushes silence = some (final, chunks) →
        chunks.length ≤ opts.burstChunkCap + 1 := by
  intro capped
  have bound := capped id (fun _ _ => rfl) { ChunkerOpts.default with burstChunkCap := 1 }
    [([97, 10], 0), ([98, 10], 1), ([99, 10], 2)] 600000002
    { Chunker.new { ChunkerOpts.default with burstChunkCap := 1 } with lastPush := some 2 }
    ["a".toList, "b".toList, "c".toList] (by decide) (by decide) (by decide +kernel)
  revert bound
  decide

end Loraterm
