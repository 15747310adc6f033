import Loraterm.Chunker
import Loraterm.Library.Execution

/-!
# Sequences of chunker calls

Every call drains at most one block of bytes and hands its text on.  The block leaves the buffer
before its text is chunked, so the state after a call does not depend on what chunking does, not
even when it panics.
-/

namespace Loraterm

open Utf8Text Execution

/-- The calls of the chunker's owner. -/
inductive ChunkerCall
  | push (bytes : List UInt8) (now : Nat)
  | maybeFlush (now : Nat)
  | flushForce
  deriving DecidableEq, Repr

/-- The bytes a call pushes. -/
def ChunkerCall.pushed : ChunkerCall → List UInt8
  | .push bytes _ => bytes
  | _ => []

/-- All bytes a sequence of calls pushes. -/
def pushedBytes (calls : List ChunkerCall) : List UInt8 := calls.flatMap ChunkerCall.pushed

namespace Chunker

/-- A call; `none` is a panic. -/
def call (strip : List UInt8 → List UInt8) (chunker : Chunker) :
    ChunkerCall → Option (Chunker × List Text)
  | .push bytes now => chunker.push strip bytes now
  | .maybeFlush now => chunker.maybeFlush strip now
  | .flushForce => chunker.flushForce strip

/-- The buffer is not empty and the silence threshold has elapsed. -/
def silent (chunker : Chunker) (now : Nat) : Bool :=
  !chunker.buf.isEmpty &&
    chunker.lastPush.any fun instant => chunker.opts.flushSilence ≤ now - instant

/-- The block a call drains. -/
def drained (chunker : Chunker) : ChunkerCall → Option (List UInt8)
  | .push bytes _ => (splitCommitted (chunker.buf ++ bytes)).map Prod.fst
  | .maybeFlush now => if chunker.silent now then some chunker.buf else none
  | .flushForce => some chunker.buf

/-- The chunker without buffered bytes. -/
def emptied (chunker : Chunker) : Chunker := { chunker with buf := [], lastPush := none }

/-- The state a call leaves. -/
def after (chunker : Chunker) : ChunkerCall → Chunker
  | .push bytes now =>
      { chunker with
        buf := ((splitCommitted (chunker.buf ++ bytes)).map Prod.snd).getD (chunker.buf ++ bytes)
        lastPush := some now }
  | .maybeFlush now => if chunker.silent now then chunker.emptied else chunker
  | .flushForce => chunker.emptied

/-- The state a sequence of calls leaves. -/
def afterAll (chunker : Chunker) (calls : List ChunkerCall) : Chunker :=
  calls.foldl after chunker

/-- The blocks a sequence of calls drains. -/
def blocks : Chunker → List ChunkerCall → List (List UInt8)
  | _, [] => []
  | chunker, call :: calls => (chunker.drained call).toList ++ (chunker.after call).blocks calls

/-! ## Single calls -/

theorem splitCommitted_append_cons (front : List UInt8) {back : List UInt8}
    (unbroken : 0x0A ∉ back) :
    splitCommitted (front ++ 0x0A :: back) = some (front ++ [0x0A], back) := by
  have not_later : back.reverse.findIdx? (· == 0x0A) = none := by
    rw [List.findIdx?_eq_none_iff]
    intro byte member
    simp only [beq_eq_false_iff_ne, ne_eq]
    rintro rfl
    exact unbroken (List.mem_reverse.mp member)
  have found : lastNewline (front ++ 0x0A :: back) = some front.length := by
    simp [lastNewline, List.findIdx?_append, not_later, List.findIdx?_cons]
  have joined : front ++ 0x0A :: back = (front ++ [0x0A]) ++ back := by simp
  have length_eq : front.length + 1 = (front ++ [0x0A]).length := by simp
  rw [splitCommitted, found, Option.map_some, joined, length_eq, List.take_left, List.drop_left]

/-- A buffer with a newline is cut after its last one. -/
theorem splitCommitted_eq_some {buf head tail : List UInt8}
    (cut : splitCommitted buf = some (head, tail)) :
    buf = head ++ tail ∧ head.getLast? = some 0x0A ∧ 0x0A ∉ tail := by
  have newline : 0x0A ∈ buf := by
    by_contra missing
    rw [splitCommitted_of_no_newline (by simpa using missing)] at cut
    cases cut
  obtain ⟨back, front, reverse_eq, unbroken⟩ := List.eq_append_cons_of_mem
    (List.mem_reverse.mpr newline)
  have buf_eq : buf = front.reverse ++ 0x0A :: back.reverse := by
    rw [← List.reverse_reverse buf, reverse_eq]
    simp
  have later : 0x0A ∉ back.reverse := fun member => unbroken (List.mem_reverse.mp member)
  rw [buf_eq, splitCommitted_append_cons _ later] at cut
  obtain ⟨rfl, rfl⟩ := Prod.mk.inj (Option.some.inj cut)
  exact ⟨by rw [buf_eq]; simp, by simp, later⟩

theorem maybeFlush_eq (strip : List UInt8 → List UInt8) (chunker : Chunker) (now : Nat) :
    chunker.maybeFlush strip now =
      if chunker.silent now then chunker.drainAll strip else some (chunker, []) := by
  rw [maybeFlush, silent]
  cases chunker.buf.isEmpty with
  | true => rfl
  | false =>
      cases chunker.lastPush with
      | none => rfl
      | some instant => simp

/-- A call hands the text of the block it drains to `chunks_from_text`, and panics only there. -/
theorem call_eq (strip : List UInt8 → List UInt8) (chunker : Chunker) (call : ChunkerCall) :
    chunker.call strip call =
      match chunker.drained call with
      | none => some (chunker.after call, [])
      | some block =>
          (chunksFromText (blockText strip block) chunker.opts).map (chunker.after call, ·) := by
  cases call with
  | push bytes now =>
      rw [Chunker.call, push_eq, drained, after]
      cases splitCommitted (chunker.buf ++ bytes) <;> rfl
  | maybeFlush now =>
      rw [Chunker.call, maybeFlush_eq, drained, after]
      cases chunker.silent now <;> rfl
  | flushForce => rfl

theorem after_of_call {strip : List UInt8 → List UInt8} {chunker next : Chunker}
    {call : ChunkerCall} {chunks : List Text}
    (returned : chunker.call strip call = some (next, chunks)) : next = chunker.after call := by
  rw [call_eq] at returned
  split at returned
  · exact (Prod.mk.inj (Option.some.inj returned)).1.symm
  · obtain ⟨_, -, pair_eq⟩ := Option.map_eq_some_iff.mp returned
    exact (Prod.mk.inj pair_eq).1.symm

/-- Calls that all return leave the state of `afterAll`. -/
theorem afterAll_of_run {strip : List UInt8 → List UInt8} {chunker final : Chunker}
    {calls : List ChunkerCall}
    (ran : run (fun state call => (Chunker.call strip state call).map Prod.fst) chunker calls =
      some final) : final = chunker.afterAll calls := by
  induction calls generalizing chunker with
  | nil => exact (Option.some.inj ran).symm
  | cons call calls ih =>
      obtain ⟨next, stepped, rest⟩ := run_cons_eq_some.mp ran
      obtain ⟨⟨returned, chunks⟩, call_returned, rfl⟩ := Option.map_eq_some_iff.mp stepped
      rw [ih rest, after_of_call call_returned]
      rfl

theorem opts_after (chunker : Chunker) (call : ChunkerCall) :
    (chunker.after call).opts = chunker.opts := by
  cases call with
  | push bytes now => rfl
  | maybeFlush now =>
      rw [after]
      split <;> rfl
  | flushForce => rfl

/-- A call drains its block from the front of what was buffered and pushed. -/
theorem drained_append_buf (chunker : Chunker) (call : ChunkerCall) :
    (chunker.drained call).toList.flatten ++ (chunker.after call).buf =
      chunker.buf ++ call.pushed := by
  cases call with
  | push bytes now =>
      simp only [drained, after, ChunkerCall.pushed]
      cases cut : splitCommitted (chunker.buf ++ bytes) with
      | none => simp
      | some parts =>
          obtain ⟨buf_eq, -, -⟩ := splitCommitted_eq_some cut
          simp [buf_eq]
  | maybeFlush now =>
      simp only [drained, after, ChunkerCall.pushed]
      split <;> simp [emptied]
  | flushForce => simp [drained, after, emptied, ChunkerCall.pushed]

/-- The blocks of a sequence of calls are cut from the pushed bytes in order. -/
theorem blocks_append_buf (chunker : Chunker) (calls : List ChunkerCall) :
    (chunker.blocks calls).flatten ++ (chunker.afterAll calls).buf =
      chunker.buf ++ pushedBytes calls := by
  induction calls generalizing chunker with
  | nil => simp [blocks, afterAll, pushedBytes]
  | cons call calls ih =>
      calc
        (chunker.blocks (call :: calls)).flatten ++ (chunker.afterAll (call :: calls)).buf =
            (chunker.drained call).toList.flatten ++
              (((chunker.after call).blocks calls).flatten ++
                ((chunker.after call).afterAll calls).buf) := by simp [blocks, afterAll]
        _ = (chunker.drained call).toList.flatten ++
              ((chunker.after call).buf ++ pushedBytes calls) := by rw [ih]
        _ = chunker.buf ++ pushedBytes (call :: calls) := by
            rw [← List.append_assoc, drained_append_buf]
            simp [pushedBytes]

/-! ## The state invariant -/

/-- What holds of a chunker between two calls. -/
structure Settled (chunker : Chunker) : Prop where
  unbroken : 0x0A ∉ chunker.buf
  dated : chunker.buf ≠ [] → ∃ instant, chunker.lastPush = some instant

theorem settled_new (opts : ChunkerOpts) : (new opts).Settled := ⟨by simp [new], by simp [new]⟩

theorem Settled.after {chunker : Chunker} (settled : chunker.Settled) (call : ChunkerCall) :
    (chunker.after call).Settled := by
  cases call with
  | push bytes now =>
      refine ⟨?_, fun _ => ⟨now, rfl⟩⟩
      simp only [Chunker.after]
      cases cut : splitCommitted (chunker.buf ++ bytes) with
      | none =>
          intro newline
          have newline : 0x0A ∈ chunker.buf ++ bytes := newline
          obtain ⟨head, tail, found⟩ := splitCommitted_of_newline (List.contains_iff_mem.mpr newline)
          rw [found] at cut
          cases cut
      | some parts => exact (splitCommitted_eq_some cut).2.2
  | maybeFlush now =>
      simp only [Chunker.after]
      split
      · exact ⟨by simp [emptied], by simp [emptied]⟩
      · exact settled
  | flushForce => exact ⟨by simp [Chunker.after, emptied], by simp [Chunker.after, emptied]⟩

theorem settled_afterAll {chunker : Chunker} (settled : chunker.Settled)
    (calls : List ChunkerCall) : (chunker.afterAll calls).Settled := by
  induction calls generalizing chunker with
  | nil => exact settled
  | cons call calls ih => exact ih (settled.after call)

theorem opts_afterAll (chunker : Chunker) (calls : List ChunkerCall) :
    (chunker.afterAll calls).opts = chunker.opts := by
  induction calls generalizing chunker with
  | nil => rfl
  | cons call calls ih => exact (ih (chunker.after call)).trans (opts_after chunker call)

/-- A buffer with bytes has a deadline, unless it lies beyond the greatest instant. -/
theorem Settled.nextDeadline_cases {chunker : Chunker} (settled : chunker.Settled) :
    (chunker.buf = [] ∧ chunker.nextDeadline = some none) ∨
      ∃ instant, chunker.buf ≠ [] ∧ chunker.lastPush = some instant ∧
        chunker.nextDeadline = (instantAdd instant chunker.opts.flushSilence).map some := by
  by_cases empty : chunker.buf = []
  · exact .inl ⟨empty, by simp [nextDeadline, empty]⟩
  · obtain ⟨instant, pushed⟩ := settled.dated empty
    exact .inr ⟨instant, empty, pushed, by simp [nextDeadline, empty, pushed]⟩

theorem instantAdd_eq_some {instant duration sum : Nat} :
    instantAdd instant duration = some sum ↔
      instant + duration ≤ maxInstant ∧ instant + duration = sum := by
  simp [instantAdd]

/-- The silence threshold has elapsed exactly when the deadline has come. -/
theorem Settled.silent_iff {chunker : Chunker} (settled : chunker.Settled) {now : Nat}
    (bounded : now ≤ maxInstant) (later : ∀ instant ∈ chunker.lastPush, instant ≤ now) :
    chunker.silent now = true ↔
      ∃ deadline, chunker.nextDeadline = some (some deadline) ∧ deadline ≤ now := by
  obtain ⟨empty, none_due⟩ | ⟨instant, nonempty, pushed, deadline_eq⟩ := settled.nextDeadline_cases
  · simp [silent, empty, none_due]
  · have instant_le := later instant pushed
    simp only [silent, pushed, deadline_eq, Option.any_some, Bool.and_eq_true, Bool.not_eq_true',
      List.isEmpty_eq_false_iff, decide_eq_true_eq, Option.map_eq_some_iff, Option.some.injEq,
      exists_eq_right, instantAdd_eq_some]
    constructor
    · rintro ⟨-, elapsed⟩
      exact ⟨_, ⟨by omega, rfl⟩, by omega⟩
    · rintro ⟨_, ⟨-, rfl⟩, due⟩
      exact ⟨nonempty, by omega⟩

end Chunker

/-- After any sequence of calls on a new chunker: the buffer holds no newline and is dated when it
holds bytes, the blocks drained so far and the buffer are the pushed bytes, a push drains up to a
newline, there is a deadline exactly when there are bytes, and a silence flush drains the buffer
when its deadline has come, does nothing before, and leaves no past deadline. -/
theorem chunker_state_invariant (strip : List UInt8 → List UInt8) (opts : ChunkerOpts)
    (calls : List ChunkerCall) :
    let chunker := (Chunker.new opts).afterAll calls
    (∀ final, run (fun state call => (Chunker.call strip state call).map Prod.fst)
        (Chunker.new opts) calls = some final → final = chunker) ∧
      0x0A ∉ chunker.buf ∧
      (chunker.buf ≠ [] → ∃ instant, chunker.lastPush = some instant) ∧
      ((Chunker.new opts).blocks calls).flatten ++ chunker.buf = pushedBytes calls ∧
      (∀ bytes now block, chunker.drained (.push bytes now) = some block →
        block.getLast? = some 0x0A) ∧
      (chunker.nextDeadline = some none ↔ chunker.buf = []) ∧
      ∀ now ≤ maxInstant, (∀ instant ∈ chunker.lastPush, instant ≤ now) →
        ((∃ deadline, chunker.nextDeadline = some (some deadline) ∧ deadline ≤ now) →
          chunker.maybeFlush strip now =
            (chunksFromText (blockText strip chunker.buf) opts).map
              ({ chunker with buf := [], lastPush := none }, ·)) ∧
        ((¬ ∃ deadline, chunker.nextDeadline = some (some deadline) ∧ deadline ≤ now) →
          chunker.maybeFlush strip now = some (chunker, [])) ∧
        ∀ deadline, (chunker.after (.maybeFlush now)).nextDeadline = some (some deadline) →
          now < deadline := by
  intro chunker
  have settled : chunker.Settled := Chunker.settled_afterAll (Chunker.settled_new opts) calls
  have opts_eq : chunker.opts = opts := Chunker.opts_afterAll _ calls
  refine ⟨fun final ran => Chunker.afterAll_of_run ran, settled.unbroken, settled.dated,
    ?_, ?_, ?_, ?_⟩
  · exact Chunker.blocks_append_buf (Chunker.new opts) calls
  · intro bytes now block drained
    obtain ⟨⟨head, tail⟩, cut, rfl⟩ := Option.map_eq_some_iff.mp drained
    exact (Chunker.splitCommitted_eq_some cut).2.1
  · obtain ⟨empty, none_due⟩ | ⟨instant, nonempty, -, deadline_eq⟩ := settled.nextDeadline_cases
    · simp [empty, none_due]
    · simp [nonempty, deadline_eq]
  · intro now bounded later
    have due_iff := settled.silent_iff bounded later
    refine ⟨fun due => ?_, fun not_due => ?_, fun deadline remaining => ?_⟩
    · rw [Chunker.maybeFlush_eq, if_pos (due_iff.mpr due), Chunker.drainAll, opts_eq]
    · rw [Chunker.maybeFlush_eq, if_neg (fun silent => not_due (due_iff.mp silent))]
    · by_contra past
      cases silent : chunker.silent now with
      | true => simp [Chunker.after, silent, Chunker.emptied, Chunker.nextDeadline] at remaining
      | false =>
          simp only [Chunker.after, silent, Bool.false_eq_true, if_false] at remaining
          rw [due_iff.mpr ⟨deadline, remaining, by omega⟩] at silent
          cases silent

end Loraterm
