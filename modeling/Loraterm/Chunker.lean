import Loraterm.ChunkText

/-!
# The stateful chunker

Raw PTY bytes are pushed in, chunks come out when a newline was seen, after a silence, or when
flushing is forced.  Instants are nanoseconds.  The escape stripper is a parameter: it is a
third-party function from bytes to bytes.
-/

namespace Loraterm

open Utf8Text

/-- The greatest instant, just below `2 ^ 63` seconds. -/
def maxInstant : Nat := 2 ^ 63 * 1000000000 - 1

/-- Instant plus duration, which panics on overflow. -/
def instantAdd (instant duration : Nat) : Option Nat :=
  if instant + duration ≤ maxInstant then some (instant + duration) else none

/-! ## Normalization -/

/-- Replace each CR LF pair and each other CR by one LF. -/
def crToLf : List UInt8 → List UInt8
  | [] => []
  | 0x0D :: 0x0A :: rest => 0x0A :: crToLf rest
  | byte :: rest => (if byte = 0x0D then 0x0A else byte) :: crToLf rest

/-- Strip escapes, then clean carriage returns. -/
def normalizeText (strip : List UInt8 → List UInt8) (block : List UInt8) : List UInt8 :=
  crToLf (strip block)

/-- Replace every replacement character by a question mark. -/
def questionMarks (text : Text) : Text :=
  text.map fun char => if char = replacement then '?' else char

/-- The text of one drained block. -/
def blockText (strip : List UInt8 → List UInt8) (block : List UInt8) : Text :=
  questionMarks (fromUtf8Lossy (normalizeText strip block))

/-! ## State -/

/-- Stateful chunker. -/
structure Chunker where
  /-- Configuration. -/
  opts : ChunkerOpts
  /-- Bytes not yet drained. -/
  buf : List UInt8
  /-- Instant of the last push since the last full drain. -/
  lastPush : Option Nat
  deriving DecidableEq, Repr

namespace Chunker

variable (strip : List UInt8 → List UInt8)

/-- An empty chunker. -/
def new (opts : ChunkerOpts) : Chunker := { opts, buf := [], lastPush := none }

/-- Position of the last newline byte. -/
def lastNewline (buf : List UInt8) : Option Nat :=
  (buf.reverse.findIdx? (· == 0x0A)).map (buf.length - 1 - ·)

/-- The buffer cut after its last newline. -/
def splitCommitted (buf : List UInt8) : Option (List UInt8 × List UInt8) :=
  (lastNewline buf).map fun position => (buf.take (position + 1), buf.drop (position + 1))

/-- Flush everything up to and including the last newline; keep the tail buffered. -/
def flushCommitted (chunker : Chunker) : Option (Chunker × List Text) :=
  match splitCommitted chunker.buf with
  | none => some (chunker, [])
  | some (head, tail) =>
      (chunksFromText (blockText strip head) chunker.opts).map
        ({ chunker with buf := tail }, ·)

/-- Flush the whole buffer. -/
def drainAll (chunker : Chunker) : Option (Chunker × List Text) :=
  (chunksFromText (blockText strip chunker.buf) chunker.opts).map
    ({ chunker with buf := [], lastPush := none }, ·)

/-- Append raw bytes; returns chunks if a newline was seen. -/
def push (chunker : Chunker) (bytes : List UInt8) (now : Nat) :
    Option (Chunker × List Text) :=
  let pushed := { chunker with buf := chunker.buf ++ bytes, lastPush := some now }
  if pushed.buf.contains 0x0A then pushed.flushCommitted strip else some (pushed, [])

/-- Flush after the silence threshold elapsed. -/
def maybeFlush (chunker : Chunker) (now : Nat) : Option (Chunker × List Text) :=
  if chunker.buf.isEmpty then
    some (chunker, [])
  else
    match chunker.lastPush with
    | some instant =>
        if chunker.opts.flushSilence ≤ now - instant then chunker.drainAll strip
        else some (chunker, [])
    | none => some (chunker, [])

/-- Force-flush everything. -/
def flushForce (chunker : Chunker) : Option (Chunker × List Text) := chunker.drainAll strip

/-- The silence deadline, absent when the buffer is empty; `none` is an instant overflow. -/
def nextDeadline (chunker : Chunker) : Option (Option Nat) :=
  if chunker.buf.isEmpty then
    some none
  else
    match chunker.lastPush with
    | some instant => (instantAdd instant chunker.opts.flushSilence).map some
    | none => some none

/-! ## What one operation does -/

theorem splitCommitted_of_newline {buf : List UInt8} (newline : buf.contains 0x0A = true) :
    ∃ head tail, splitCommitted buf = some (head, tail) := by
  have found : (buf.reverse.findIdx? (· == 0x0A)).isSome = true := by
    rw [List.findIdx?_isSome]
    simpa using newline
  obtain ⟨position, position_eq⟩ := Option.isSome_iff_exists.mp found
  exact ⟨_, _, by rw [splitCommitted, lastNewline, position_eq]; rfl⟩

theorem splitCommitted_of_no_newline {buf : List UInt8} (unbroken : buf.contains 0x0A = false) :
    splitCommitted buf = none := by
  have missing : buf.reverse.findIdx? (· == 0x0A) = none := by
    rw [List.findIdx?_eq_none_iff]
    intro byte member
    simp only [List.contains_eq_mem, decide_eq_false_iff_not] at unbroken
    simp only [beq_eq_false_iff_ne, ne_eq]
    rintro rfl
    exact unbroken (List.mem_reverse.mp member)
  rw [splitCommitted, lastNewline, missing]
  rfl

/-- A push drains up to the last newline of the extended buffer, if there is one. -/
theorem push_eq (chunker : Chunker) (bytes : List UInt8) (now : Nat) :
    chunker.push strip bytes now =
      match splitCommitted (chunker.buf ++ bytes) with
      | none => some ({ chunker with buf := chunker.buf ++ bytes, lastPush := some now }, [])
      | some (head, tail) =>
          (chunksFromText (blockText strip head) chunker.opts).map
            ({ chunker with buf := tail, lastPush := some now }, ·) := by
  simp only [push]
  cases newline : (chunker.buf ++ bytes).contains 0x0A with
  | false => simp [splitCommitted_of_no_newline newline]
  | true =>
      obtain ⟨head, tail, cut⟩ := splitCommitted_of_newline newline
      simp [flushCommitted, cut]

end Chunker

end Loraterm
