import Loraterm.SessionProgress
import Loraterm.TrustBoundary

/-!
# Sessions that cannot be shut down

The actor waits inside a select arm for a slot of the PTY input channel, and sees no shutdown
meanwhile.  When the channel is full and the writer thread blocks on the terminal of a child that
does not read, it waits for good.
-/

namespace Loraterm

open Utf8Text Mpsc Execution

namespace Pty

/-- The writer thread waits for the child: its bytes do not fit the terminal's buffer. -/
def Blocked (pty : Pty) : Prop :=
  pty.childAlive = true ∧ ∃ rest, pty.writer = .writing rest ∧ pty.kernelIn.free < rest.length

instance (pty : Pty) : Decidable pty.Blocked :=
  match writing : pty.writer with
  | .idle => isFalse (by simp [Blocked, writing])
  | .writing rest =>
      decidable_of_iff (pty.childAlive = true ∧ pty.kernelIn.free < rest.length)
        (by simp [Blocked, writing])
  | .exited => isFalse (by simp [Blocked, writing])

/-- The input channel is full, and the writer thread makes no room in it. -/
def Jammed (pty : Pty) : Prop := pty.input.Full ∧ pty.Blocked

instance (pty : Pty) : Decidable pty.Jammed := inferInstanceAs (Decidable (_ ∧ _))

/-- The child neither reads its input nor exits. -/
def Unread : PtyAction → Prop
  | .childRead _ | .childExit => False
  | _ => True

/-- A blocked writer thread writes part of its bytes at most, and stays blocked. -/
theorem blocked_write_iff {pty next : Pty} {count : Nat}
    (stepped : pty.step (.writerWrite count) = some next) :
    next.Jammed ↔ pty.Jammed := by
  obtain ⟨rest, kernelIn, writing, fits, rfl⟩ := writerWrite_cases stepped
  obtain ⟨room, free_eq⟩ := KernelBuffer.put_eq_some fits
  rw [List.length_take] at room free_eq
  refine and_congr_right fun _ => and_congr_right fun _ => ⟨?_, ?_⟩
  · rintro ⟨left, still_writing, stuck⟩
    refine ⟨rest, writing, ?_⟩
    simp only at still_writing stuck
    split at still_writing
    · cases still_writing
    · obtain rfl := Writer.writing.inj still_writing
      rw [free_eq, List.length_drop] at stuck
      omega
  · rintro ⟨all, writing_all, stuck⟩
    obtain rfl := Writer.writing.inj (writing.symm.trans writing_all)
    have partial_write : ¬ rest.length ≤ count := by omega
    refine ⟨rest.drop count, if_neg partial_write, ?_⟩
    simp only [free_eq, List.length_drop]
    omega

/-- Only the child can clear a jam. -/
theorem Jammed.step {pty next : Pty} {action : PtyAction} (jammed : pty.Jammed)
    (unread : Unread action) (stepped : pty.step action = some next) : next.Jammed := by
  have outward : action.ofWriter = false → next.Jammed := by
    intro other
    obtain ⟨input_eq, writer_eq, kernel, alive⟩ := inward_of_step stepped other
    obtain ⟨full, child, rest, writing, stuck⟩ := jammed
    obtain ⟨count, rfl, -⟩ | kernel_eq := kernel
    · exact unread.elim
    · obtain alive_eq | ⟨rfl, -⟩ := alive
      · exact ⟨input_eq ▸ full, alive_eq.trans child, rest, writer_eq.trans writing,
          kernel_eq ▸ stuck⟩
      · exact unread.elim
  have ⟨_, child, rest, writing, _⟩ := jammed
  cases action with
  | writerReceive =>
      obtain ⟨idle, -⟩ := writerReceive_cases stepped
      rw [idle] at writing
      cases writing
  | writerWrite count => exact (blocked_write_iff stepped).mpr jammed
  | writerFails => simp [Pty.step, writerFails, writing, child] at stepped
  | _ => exact outward rfl

end Pty

namespace Session

variable (strip : List UInt8 → List UInt8)

/-- Any step but the child's reading or exiting. -/
def Unread : SessionAction → Prop
  | .pty action => Pty.Unread action
  | _ => True

/-- The actor waits for a slot of a jammed PTY input channel. -/
def Wedged (session : Session) : Prop :=
  (∃ payload, session.phase = .forwarding payload) ∧ session.pty.Jammed

instance (session : Session) : Decidable session.Wedged :=
  decidable_of_iff (session.phase.inHand ≠ [] ∧ session.pty.Jammed) <| by
    cases here : session.phase <;> simp [Wedged, ActorPhase.inHand, here]

variable {strip : List UInt8 → List UInt8}

/-- A jam keeps the actor waiting. -/
theorem Wedged.step {session next : Session} {action : SessionAction} (wedged : session.Wedged)
    (sound : session.Sound) (unread : Unread action)
    (stepped : session.step strip action = some next) : next.Wedged := by
  have ⟨⟨payload, forwarding⟩, jammed⟩ := wedged
  cases sessionStep_of_step stepped with
  | acted acted =>
      have receiving : session.pty.input.receiving = true := by
        obtain ⟨-, -, rest, writing, -⟩ := jammed
        exact sound.pty.receiving.mpr (by simp [writing])
      simp only [actor, forwarding, forward,
        Channel.trySend_of_full payload receiving jammed.1] at acted
      cases acted
  | bridged pty_stepped => exact ⟨⟨payload, forwarding⟩, jammed.step unread pty_stepped⟩
  | _ => exact ⟨⟨payload, forwarding⟩, jammed⟩

end Session

end Loraterm
