import Loraterm.Library.Execution
import Loraterm.Library.Mpsc

/-!
# The PTY bridge

A writer thread drains the input channel into the kernel's terminal buffer, a reader thread fills
the output channel from it, and a child sits at the other end.  Writes block while a buffer is
full.  The terminal hangs up when the child is gone; no other I/O error is modelled.
-/

namespace Loraterm

open Mpsc Execution

/-- One direction of the kernel's terminal buffer. -/
structure KernelBuffer where
  /-- Bytes it can hold. -/
  size : Nat
  /-- Bytes written and not yet read. -/
  bytes : List UInt8
  fits : bytes.length ≤ size
  deriving DecidableEq

namespace KernelBuffer

/-- An empty buffer. -/
def empty (size : Nat) : KernelBuffer := { size, bytes := [], fits := Nat.zero_le size }

/-- Bytes that still fit. -/
def free (buffer : KernelBuffer) : Nat := buffer.size - buffer.bytes.length

/-- Append bytes that fit. -/
def put (buffer : KernelBuffer) (bytes : List UInt8) : Option KernelBuffer :=
  if room : buffer.bytes.length + bytes.length ≤ buffer.size then
    some { buffer with bytes := buffer.bytes ++ bytes, fits := by simpa using room }
  else none

/-- Remove bytes from the front. -/
def consume (buffer : KernelBuffer) (count : Nat) : KernelBuffer :=
  { buffer with
    bytes := buffer.bytes.drop count
    fits := by
      rw [List.length_drop]
      exact Nat.le_trans (Nat.sub_le _ _) buffer.fits }

theorem put_eq_some {buffer next : KernelBuffer} {bytes : List UInt8}
    (put_some : buffer.put bytes = some next) :
    bytes.length ≤ buffer.free ∧ next.free = buffer.free - bytes.length := by
  simp only [put] at put_some
  split at put_some
  · rename_i room
    obtain rfl := Option.some.inj put_some
    simp only [free, List.length_append]
    omega
  · cases put_some

theorem exists_put {buffer : KernelBuffer} {bytes : List UInt8}
    (room : bytes.length ≤ buffer.free) : ∃ next, buffer.put bytes = some next := by
  have fits := buffer.fits
  have in_size : buffer.bytes.length + bytes.length ≤ buffer.size := by
    simp only [free] at room
    omega
  exact ⟨_, by rw [put, dif_pos in_size]⟩

end KernelBuffer

/-- The writer thread. -/
inductive Writer
  | idle
  /-- Bytes of the current payload not yet written. -/
  | writing (rest : List UInt8)
  | exited
  deriving DecidableEq, Repr

/-- The reader thread. -/
inductive Reader
  | idle
  /-- Bytes read and not yet sent on. -/
  | sending (bytes : List UInt8)
  | exited
  deriving DecidableEq, Repr

/-- A PTY with its two threads and its child. -/
structure Pty where
  /-- From the actor to the writer thread. -/
  input : Channel (List UInt8)
  /-- From the reader thread to the actor. -/
  output : Channel (List UInt8)
  writer : Writer
  reader : Reader
  /-- Towards the child. -/
  kernelIn : KernelBuffer
  /-- From the child. -/
  kernelOut : KernelBuffer
  /-- Whether some process still holds the terminal. -/
  childAlive : Bool
  deriving DecidableEq

/-- The steps of the threads and of the child. -/
inductive PtyAction
  | writerReceive
  | writerWrite (count : Nat)
  | writerFails
  | readerRead (count : Nat)
  | readerSend
  | readerEnds
  | childRead (count : Nat)
  | childWrite (bytes : List UInt8)
  | childExit
  deriving DecidableEq, Repr

/-- Whether the writer thread makes the step. -/
def PtyAction.ofWriter : PtyAction → Bool
  | .writerReceive | .writerWrite _ | .writerFails => true
  | _ => false

namespace Pty

/-- Slots of the input channel. -/
def inputCapacity : Nat := 64

/-- Slots of the output channel. -/
def outputCapacity : Nat := 256

/-- Bytes the reader thread reads at most at once. -/
def readSize : Nat := 4096

/-- A PTY with a fresh child; the arguments are the sizes of the kernel's buffers. -/
def spawn (inSize outSize : Nat) : Pty where
  input := Channel.empty inputCapacity
  output := Channel.empty outputCapacity
  writer := .idle
  reader := .idle
  kernelIn := .empty inSize
  kernelOut := .empty outSize
  childAlive := true

/-- The writer thread takes the next payload, or ends when no more can come. -/
def writerReceive (pty : Pty) : Option Pty :=
  match pty.writer with
  | .idle =>
      match pty.input.recv with
      | some (payload, input) => some { pty with input, writer := .writing payload }
      | none =>
          if pty.input.finished then
            some { pty with input := pty.input.dropReceiver, writer := .exited }
          else none
  | _ => none

/-- The writer thread writes some bytes of its payload. -/
def writerWrite (pty : Pty) (count : Nat) : Option Pty :=
  match pty.writer with
  | .writing rest =>
      (pty.kernelIn.put (rest.take count)).map fun kernelIn =>
        { pty with
          kernelIn
          writer := if rest.length ≤ count then .idle else .writing (rest.drop count) }
  | _ => none

/-- A write fails on a terminal that hung up, and the writer thread ends. -/
def writerFails (pty : Pty) : Option Pty :=
  match pty.writer with
  | .writing _ =>
      if pty.childAlive then none
      else some { pty with input := pty.input.dropReceiver, writer := .exited }
  | _ => none

/-- The reader thread reads some of the waiting bytes. -/
def readerRead (pty : Pty) (count : Nat) : Option Pty :=
  match pty.reader with
  | .idle =>
      if pty.kernelOut.bytes.isEmpty ∨ count = 0 ∨ readSize < count then none
      else
        some { pty with
               kernelOut := pty.kernelOut.consume count
               reader := .sending (pty.kernelOut.bytes.take count) }
  | _ => none

/-- The reader thread passes on what it read, or ends when nobody listens. -/
def readerSend (pty : Pty) : Option Pty :=
  match pty.reader with
  | .sending bytes =>
      match pty.output.trySend bytes with
      | .ok output => some { pty with output, reader := .idle }
      | .error .full => none
      | .error .closed => some { pty with output := pty.output.dropSender, reader := .exited }
  | _ => none

/-- The reader thread ends once the terminal hung up and is drained. -/
def readerEnds (pty : Pty) : Option Pty :=
  match pty.reader with
  | .idle =>
      if pty.childAlive ∨ ¬ pty.kernelOut.bytes.isEmpty then none
      else some { pty with output := pty.output.dropSender, reader := .exited }
  | _ => none

/-- One step of a thread or of the child. -/
def step (pty : Pty) : PtyAction → Option Pty
  | .writerReceive => pty.writerReceive
  | .writerWrite count => pty.writerWrite count
  | .writerFails => pty.writerFails
  | .readerRead count => pty.readerRead count
  | .readerSend => pty.readerSend
  | .readerEnds => pty.readerEnds
  | .childRead count =>
      if pty.childAlive then some { pty with kernelIn := pty.kernelIn.consume count } else none
  | .childWrite bytes =>
      if pty.childAlive then
        (pty.kernelOut.put bytes).map fun kernelOut => { pty with kernelOut }
      else none
  | .childExit => if pty.childAlive then some { pty with childAlive := false } else none

/-! ## What one step does -/

theorem writerReceive_cases {pty next : Pty} (stepped : pty.writerReceive = some next) :
    pty.writer = .idle ∧
      ((∃ payload input, pty.input.recv = some (payload, input) ∧
          next = { pty with input, writer := .writing payload }) ∨
        (pty.input.recv = none ∧ pty.input.finished = true ∧
          next = { pty with input := pty.input.dropReceiver, writer := .exited })) := by
  simp only [writerReceive] at stepped
  split at stepped
  · rename_i idle
    refine ⟨idle, ?_⟩
    split at stepped
    · rename_i payload input received
      exact .inl ⟨payload, input, received, (Option.some.inj stepped).symm⟩
    · rename_i empty
      split at stepped
      · rename_i finished
        exact .inr ⟨empty, finished, (Option.some.inj stepped).symm⟩
      · cases stepped
  · cases stepped

theorem writerWrite_cases {pty next : Pty} {count : Nat}
    (stepped : pty.writerWrite count = some next) :
    ∃ rest kernelIn, pty.writer = .writing rest ∧
      pty.kernelIn.put (rest.take count) = some kernelIn ∧
        next = { pty with
                 kernelIn
                 writer := if rest.length ≤ count then .idle else .writing (rest.drop count) } := by
  simp only [writerWrite] at stepped
  split at stepped
  · rename_i rest writing
    obtain ⟨kernelIn, fits, next_eq⟩ := Option.map_eq_some_iff.mp stepped
    exact ⟨rest, kernelIn, writing, fits, next_eq.symm⟩
  · cases stepped

theorem writerFails_cases {pty next : Pty} (stepped : pty.writerFails = some next) :
    next = { pty with input := pty.input.dropReceiver, writer := .exited } := by
  simp only [writerFails] at stepped
  split at stepped
  · split at stepped
    · cases stepped
    · exact (Option.some.inj stepped).symm
  · cases stepped

/-- The reader thread and the child leave the way in alone, but for the child's reading and its
exit. -/
theorem inward_of_step {pty next : Pty} {action : PtyAction} (stepped : pty.step action = some next)
    (other : action.ofWriter = false) :
    next.input = pty.input ∧ next.writer = pty.writer ∧
      ((∃ count, action = .childRead count ∧ next.kernelIn = pty.kernelIn.consume count) ∨
        next.kernelIn = pty.kernelIn) ∧
      (next.childAlive = pty.childAlive ∨ action = .childExit ∧ next.childAlive = false) := by
  cases action with
  | writerReceive => cases other
  | writerWrite count => cases other
  | writerFails => cases other
  | readerRead count =>
      simp only [step, readerRead] at stepped
      split at stepped
      · split at stepped
        · cases stepped
        · obtain rfl := Option.some.inj stepped
          exact ⟨rfl, rfl, .inr rfl, .inl rfl⟩
      · cases stepped
  | readerSend =>
      simp only [step, readerSend] at stepped
      split at stepped
      · split at stepped
        · obtain rfl := Option.some.inj stepped
          exact ⟨rfl, rfl, .inr rfl, .inl rfl⟩
        · cases stepped
        · obtain rfl := Option.some.inj stepped
          exact ⟨rfl, rfl, .inr rfl, .inl rfl⟩
      · cases stepped
  | readerEnds =>
      simp only [step, readerEnds] at stepped
      split at stepped
      · split at stepped
        · cases stepped
        · obtain rfl := Option.some.inj stepped
          exact ⟨rfl, rfl, .inr rfl, .inl rfl⟩
      · cases stepped
  | childRead count =>
      simp only [step] at stepped
      split at stepped
      · obtain rfl := Option.some.inj stepped
        exact ⟨rfl, rfl, .inl ⟨count, rfl, rfl⟩, .inl rfl⟩
      · cases stepped
  | childWrite bytes =>
      simp only [step] at stepped
      split at stepped
      · obtain ⟨kernelOut, -, rfl⟩ := Option.map_eq_some_iff.mp stepped
        exact ⟨rfl, rfl, .inr rfl, .inl rfl⟩
      · cases stepped
  | childExit =>
      simp only [step] at stepped
      split at stepped
      · obtain rfl := Option.some.inj stepped
        exact ⟨rfl, rfl, .inr rfl, .inr ⟨rfl, rfl⟩⟩
      · cases stepped

end Pty

end Loraterm
