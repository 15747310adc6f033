import Loraterm.InputOrder

/-!
# What flows through a PTY

The bytes the child reads are those that were sent to the input channel, from the first on, and the
bytes that reach the output channel are those the child wrote, from the first on.  Whatever the two
threads, the child and the actor do, nothing in between is lost, doubled or out of order.
-/

namespace Loraterm

open Utf8Text Mpsc Execution

/-- The bytes of its payload the writer thread has not written. -/
def Writer.rest : Writer → List UInt8
  | .writing rest => rest
  | _ => []

/-- The bytes the reader thread has not sent on. -/
def Reader.inHand : Reader → List UInt8
  | .sending bytes => bytes
  | _ => []

namespace KernelBuffer

theorem bytes_of_put {buffer next : KernelBuffer} {bytes : List UInt8}
    (put_some : buffer.put bytes = some next) : next.bytes = buffer.bytes ++ bytes := by
  simp only [put] at put_some
  split at put_some
  · obtain rfl := Option.some.inj put_some
    rfl
  · cases put_some

end KernelBuffer

namespace Pty

/-- The bytes a step lets the child read. -/
def reads (pty : Pty) : PtyAction → List UInt8
  | .childRead count => pty.kernelIn.bytes.take count
  | _ => []

/-- The bytes the child writes in a step. -/
def writes : PtyAction → List UInt8
  | .childWrite bytes => bytes
  | _ => []

/-- The child has read what the writer thread took, but for what the kernel and the thread hold. -/
structure Inward (pty : Pty) (consumed : List UInt8) : Prop where
  flow : pty.writer ≠ .exited →
    consumed ++ pty.kernelIn.bytes ++ pty.writer.rest = pty.input.taken.flatten
  gone : consumed ++ pty.kernelIn.bytes <+: pty.input.taken.flatten

/-- What the child wrote was sent on, but for what the kernel and the reader thread hold. -/
structure Outward (pty : Pty) (written : List UInt8) : Prop where
  flow : pty.output.receiving = true →
    pty.output.accepted.flatten ++ pty.reader.inHand ++ pty.kernelOut.bytes = written
  gone : pty.output.accepted.flatten <+: written
  /-- The reader thread does not end before the child. -/
  closed : pty.output.receiving = true → pty.reader = .exited → pty.childAlive = false

variable {pty next : Pty} {action : PtyAction} {consumed written : List UInt8}

theorem reads_eq_nil (other : ∀ count, action ≠ .childRead count) : pty.reads action = [] := by
  cases action with
  | childRead count => exact (other count rfl).elim
  | _ => rfl

theorem inward_of_flow
    (flow : consumed ++ pty.kernelIn.bytes ++ pty.writer.rest = pty.input.taken.flatten) :
    pty.Inward consumed :=
  ⟨fun _ => flow, ⟨_, flow⟩⟩

/-- Where the way in stays as it is, nothing is read. -/
theorem Inward.of_same (inward : pty.Inward consumed) (taken : next.input.taken = pty.input.taken)
    (writer : next.writer = pty.writer) (kernelIn : next.kernelIn = pty.kernelIn) :
    next.Inward consumed where
  flow := by
    rw [writer, kernelIn, taken]
    exact inward.flow
  gone := by
    rw [kernelIn, taken]
    exact inward.gone

theorem Inward.step (inward : pty.Inward consumed) (stepped : pty.step action = some next) :
    next.Inward (consumed ++ pty.reads action) := by
  cases action with
  | writerReceive =>
      rw [reads_eq_nil (by simp), List.append_nil]
      obtain ⟨idle, ⟨payload, input, received, rfl⟩ | ⟨-, -, rfl⟩⟩ := writerReceive_cases stepped
      · obtain ⟨-, -, taken_eq, -⟩ := Channel.recv_eq_some received
        have flow := inward.flow (by simp [idle])
        rw [idle, Writer.rest.eq_def, List.append_nil] at flow
        refine inward_of_flow ?_
        rw [taken_eq, List.flatten_append, ← flow]
        simp [Writer.rest]
      · exact ⟨fun alive => (alive rfl).elim, inward.gone⟩
  | writerWrite count =>
      rw [reads_eq_nil (by simp), List.append_nil]
      obtain ⟨rest, kernelIn, writing, put, rfl⟩ := writerWrite_cases stepped
      have flow := inward.flow (by simp [writing])
      rw [writing, Writer.rest] at flow
      refine inward_of_flow ?_
      rw [← flow, KernelBuffer.bytes_of_put put]
      by_cases all : rest.length ≤ count
      · simp [all, Writer.rest, List.take_of_length_le all]
      · simp [all, Writer.rest]
  | writerFails =>
      rw [reads_eq_nil (by simp), List.append_nil]
      obtain rfl := writerFails_cases stepped
      exact ⟨fun alive => (alive rfl).elim, inward.gone⟩
  | childRead count =>
      simp only [Pty.step] at stepped
      split at stepped
      · obtain rfl := Option.some.inj stepped
        have joined : consumed ++ pty.reads (.childRead count) ++ (pty.kernelIn.consume count).bytes =
            consumed ++ pty.kernelIn.bytes := by
          simp [reads, KernelBuffer.consume]
        refine ⟨fun alive => ?_, ?_⟩
        · rw [joined]
          exact inward.flow alive
        · rw [joined]
          exact inward.gone
      · cases stepped
  | _ =>
      rw [reads_eq_nil (by simp), List.append_nil]
      obtain ⟨input, writer, ⟨read, other, -⟩ | kernelIn, -⟩ := inward_of_step stepped rfl
      · cases other
      · exact inward.of_same (by rw [input]) writer kernelIn

/-- Where the way out stays as it is, nothing is written. -/
theorem Outward.of_same (outward : pty.Outward written)
    (accepted : next.output.accepted = pty.output.accepted)
    (receiving : next.output.receiving = true → pty.output.receiving = true)
    (reader : next.reader = pty.reader) (kernelOut : next.kernelOut = pty.kernelOut)
    (childAlive : next.childAlive = true → pty.childAlive = true) : next.Outward written where
  flow := by
    rw [accepted, reader, kernelOut]
    exact fun listening => outward.flow (receiving listening)
  gone := by
    rw [accepted]
    exact outward.gone
  closed := by
    rw [reader]
    intro listening exited
    have gone := outward.closed (receiving listening) exited
    by_contra still
    rw [childAlive (by simpa using still)] at gone
    cases gone

/-- Nobody receives what the child writes any more. -/
theorem Outward.unheard (outward : pty.Outward written)
    (accepted : next.output.accepted = pty.output.accepted) (gone : next.output.receiving = false) :
    next.Outward written where
  flow := by simp [gone]
  gone := by
    rw [accepted]
    exact outward.gone
  closed := by simp [gone]

theorem Outward.step (outward : pty.Outward written) (stepped : pty.step action = some next) :
    next.Outward (written ++ writes action) := by
  cases action with
  | childWrite bytes =>
      simp only [Pty.step] at stepped
      split at stepped
      · obtain ⟨kernelOut, put, rfl⟩ := Option.map_eq_some_iff.mp stepped
        refine ⟨fun listening => ?_, outward.gone.trans (List.prefix_append _ _), outward.closed⟩
        simp [writes, ← outward.flow listening, KernelBuffer.bytes_of_put put]
      · cases stepped
  | readerRead count =>
      rw [writes.eq_def, List.append_nil]
      simp only [Pty.step, readerRead] at stepped
      split at stepped
      · rename_i idle
        split at stepped
        · cases stepped
        · obtain rfl := Option.some.inj stepped
          refine ⟨fun listening => ?_, outward.gone, fun _ exited => by cases exited⟩
          have flow := outward.flow listening
          rw [idle] at flow
          simpa [Reader.inHand, KernelBuffer.consume] using flow
      · cases stepped
  | readerSend =>
      rw [writes.eq_def, List.append_nil]
      simp only [Pty.step, readerSend] at stepped
      split at stepped
      · rename_i bytes sending
        split at stepped
        · rename_i output sent
          obtain ⟨listening, -⟩ := Channel.trySend_ok sent
          have flow := outward.flow listening
          rw [sending] at flow
          obtain rfl := Option.some.inj stepped
          have now : output.accepted.flatten ++ pty.kernelOut.bytes = written := by
            simpa [Reader.inHand, Channel.accepted_trySend sent] using flow
          refine ⟨fun _ => ?_, ⟨_, now⟩, fun _ exited => by cases exited⟩
          simpa [Reader.inHand] using now
        · cases stepped
        · rename_i closed
          have gone := Channel.trySend_closed closed
          obtain rfl := Option.some.inj stepped
          exact outward.unheard rfl gone
      · cases stepped
  | readerEnds =>
      rw [writes.eq_def, List.append_nil]
      simp only [Pty.step, readerEnds] at stepped
      split at stepped
      · rename_i idle
        split at stepped
        · cases stepped
        · rename_i ended
          obtain rfl := Option.some.inj stepped
          refine ⟨fun listening => ?_, outward.gone, fun _ _ => ?_⟩
          · have flow := outward.flow listening
            rw [idle] at flow
            exact flow
          · simp only [not_or] at ended
            simpa using ended.1
      · cases stepped
  | childExit =>
      rw [writes.eq_def, List.append_nil]
      simp only [Pty.step] at stepped
      split at stepped
      · obtain rfl := Option.some.inj stepped
        exact outward.of_same rfl id rfl rfl (fun alive => (by cases alive))
      · cases stepped
  | childRead count =>
      rw [writes.eq_def, List.append_nil]
      simp only [Pty.step] at stepped
      split at stepped
      · obtain rfl := Option.some.inj stepped
        exact outward.of_same rfl id rfl rfl id
      · cases stepped
  | writerReceive =>
      rw [writes.eq_def, List.append_nil]
      obtain ⟨-, ⟨payload, input, received, rfl⟩ | ⟨-, -, rfl⟩⟩ := writerReceive_cases stepped
      · exact outward.of_same rfl id rfl rfl id
      · exact outward.of_same rfl id rfl rfl id
  | writerWrite count =>
      rw [writes.eq_def, List.append_nil]
      obtain ⟨rest, kernelIn, -, -, rfl⟩ := writerWrite_cases stepped
      exact outward.of_same rfl id rfl rfl id
  | writerFails =>
      rw [writes.eq_def, List.append_nil]
      obtain rfl := writerFails_cases stepped
      exact outward.of_same rfl id rfl rfl id

/-- Neither the threads nor the child take from the output channel or close it. -/
theorem taken_of_step (stepped : pty.step action = some next) :
    next.output.taken = pty.output.taken ∧ next.output.receiving = pty.output.receiving := by
  cases action with
  | writerReceive =>
      obtain ⟨-, ⟨payload, input, received, rfl⟩ | ⟨-, -, rfl⟩⟩ := writerReceive_cases stepped
      · exact ⟨rfl, rfl⟩
      · exact ⟨rfl, rfl⟩
  | writerWrite count =>
      obtain ⟨rest, kernelIn, -, -, rfl⟩ := writerWrite_cases stepped
      exact ⟨rfl, rfl⟩
  | writerFails =>
      obtain rfl := writerFails_cases stepped
      exact ⟨rfl, rfl⟩
  | readerSend =>
      simp only [Pty.step, readerSend] at stepped
      split at stepped
      · split at stepped
        · rename_i output sent
          obtain rfl := Option.some.inj stepped
          obtain ⟨-, -, -, taken, -, -, -, receiving⟩ := Channel.trySend_ok sent
          exact ⟨taken, receiving⟩
        · cases stepped
        · obtain rfl := Option.some.inj stepped
          exact ⟨rfl, rfl⟩
      · cases stepped
  | childWrite bytes =>
      simp only [Pty.step] at stepped
      split at stepped
      · obtain ⟨kernelOut, -, rfl⟩ := Option.map_eq_some_iff.mp stepped
        exact ⟨rfl, rfl⟩
      · cases stepped
  | readerRead | readerEnds =>
      simp only [Pty.step, readerRead, readerEnds] at stepped
      split at stepped
      · split at stepped
        · cases stepped
        · obtain rfl := Option.some.inj stepped
          exact ⟨rfl, rfl⟩
      · cases stepped
  | childRead | childExit =>
      simp only [Pty.step] at stepped
      split at stepped
      · obtain rfl := Option.some.inj stepped
        exact ⟨rfl, rfl⟩
      · cases stepped

end Pty

/-! ## From the input channel to the PTY -/

namespace Session

variable {strip : List UInt8 → List UInt8} {session next : Session} {action : SessionAction}
  {consumed written : List UInt8}

/-- What was sent to the PTY input are the first of the texts taken, encoded; in the loop, all of them
but for the one in hand. -/
structure Typed (session : Session) : Prop where
  order : session.phase.inLoop = true →
    session.pty.input.accepted ++ session.phase.inHand = session.input.taken.map encodePtyInput
  gone : session.pty.input.accepted <+: session.input.taken.map encodePtyInput

theorem Typed.of_same (typed : session.Typed)
    (sent : next.pty.input.accepted = session.pty.input.accepted)
    (phase : next.phase.inLoop = true →
      session.phase.inLoop = true ∧ next.phase.inHand = session.phase.inHand)
    (taken : next.input.taken = session.input.taken) : next.Typed where
  order := by
    intro within
    obtain ⟨before, same⟩ := phase within
    rw [sent, same, taken]
    exact typed.order before
  gone := by
    rw [sent, taken]
    exact typed.gone

theorem Typed.actorStep (typed : session.Typed) (stepped : ActorStep strip session next) :
    next.Typed := by
  cases stepped with
  | @moved phase within empty_handed settled target =>
      refine typed.of_same rfl (fun _ => ⟨within, ?_⟩) rfl
      rw [empty_handed]
      obtain rfl | rfl := target <;> rfl
  | @took line input lastActivity listening received =>
      obtain ⟨-, -, taken_eq, -⟩ := Channel.recv_eq_some received
      have order := typed.order (by rw [listening]; rfl)
      rw [listening, ActorPhase.inHand, List.append_nil] at order
      · refine ⟨fun _ => ?_, ?_⟩
        · rw [taken_eq, List.map_append, ← order]
          rfl
        · rw [taken_eq, List.map_append]
          exact typed.gone.trans (List.prefix_append _ _)
      · simp
  | chunked listening =>
      exact typed.of_same rfl (fun _ => ⟨by rw [listening]; rfl, by rw [listening]; rfl⟩) rfl
  | retried enqueuing retry => exact typed.of_same rfl (fun within => ⟨within, rfl⟩) rfl
  | offered enqueuing offer =>
      exact typed.of_same rfl (fun _ => ⟨by rw [enqueuing]; rfl, by rw [enqueuing]; rfl⟩) rfl
  | @forwarded payload input forwarding passed =>
      have order := typed.order (by rw [forwarding]; rfl)
      rw [forwarding] at order
      have now : input.accepted = session.input.taken.map encodePtyInput := by
        rw [Channel.accepted_trySend passed]
        exact order
      refine ⟨fun _ => ?_, ?_⟩
      · simpa [ActorPhase.inHand] using now
      · exact now ▸ List.prefix_rfl
  | crashed => exact typed.of_same rfl (fun within => (by cases within)) rfl
  | left => exact typed.of_same rfl (fun within => (by cases within)) rfl
  | flushed => exact typed.of_same rfl (fun within => (by cases within)) rfl
  | closed => exact typed.of_same rfl (fun within => (by cases within)) rfl
  | joined => exact typed.of_same rfl (fun within => (by cases within)) rfl
  | reaped => exact typed.of_same rfl (fun within => (by cases within)) rfl

theorem Typed.step (typed : session.Typed) (stepped : session.step strip action = some next) :
    next.Typed := by
  cases sessionStep_of_step stepped with
  | delivered sent =>
      obtain ⟨-, -, -, taken_eq, -⟩ := Channel.trySend_ok sent
      exact typed.of_same rfl (fun within => ⟨within, rfl⟩) taken_eq
  | acted acted => exact typed.actorStep (actorStep_of_actor acted)
  | bridged pty_stepped =>
      exact typed.of_same (Pty.accepted_of_step pty_stepped) (fun within => ⟨within, rfl⟩) rfl
  | _ => exact typed.of_same rfl (fun within => ⟨within, rfl⟩) rfl

theorem typed_spawn {peer : ValidatedPeer} {limits : LimitsConfig} {chunking : ChunkingConfig}
    {inSize outSize unixSecs : Nat}
    (created : spawn peer limits chunking (Pty.spawn inSize outSize) unixSecs = some session) :
    session.Typed := by
  have fresh := fresh_of_spawn created
  refine ⟨fun _ => ?_, ?_⟩
  · rw [fresh.input, fresh.pty, fresh.phase]
    rfl
  · rw [fresh.input, fresh.pty]
    exact List.nil_prefix

/-- What was sent to the PTY input are the first of the accepted texts, encoded. -/
theorem Typed.of_accepted (typed : session.Typed) :
    session.pty.input.accepted <+: session.input.accepted.map encodePtyInput := by
  have taken : session.input.taken <+: session.input.accepted := by
    rw [Channel.accepted, List.append_assoc]
    exact List.prefix_append _ _
  exact typed.gone.trans (taken.map _)

/-! ## What the child of a session reads and writes -/

/-- The bytes a step lets the child read. -/
def reads (session : Session) : SessionAction → List UInt8
  | .pty action => session.pty.reads action
  | _ => []

/-- The bytes the child writes in a step. -/
def writes (_session : Session) : SessionAction → List UInt8
  | .pty action => Pty.writes action
  | _ => []

theorem ActorStep.inward (inward : session.pty.Inward consumed)
    (stepped : ActorStep strip session next) : next.pty.Inward consumed := by
  cases stepped with
  | forwarded forwarding sent =>
      obtain ⟨-, -, -, taken, -⟩ := Channel.trySend_ok sent
      exact inward.of_same taken rfl rfl
  | _ => exact inward.of_same rfl rfl rfl

theorem inward_of_step (inward : session.pty.Inward consumed)
    (stepped : session.step strip action = some next) :
    next.pty.Inward (consumed ++ session.reads action) := by
  cases sessionStep_of_step stepped with
  | acted acted =>
      rw [reads.eq_def, List.append_nil]
      exact (actorStep_of_actor acted).inward inward
  | bridged pty_stepped => exact inward.step pty_stepped
  | _ =>
      rw [reads.eq_def, List.append_nil]
      exact inward.of_same rfl rfl rfl

end Session

end Loraterm
