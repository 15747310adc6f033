import Loraterm.SessionSound

/-!
# What a session can do on its own

The writer thread can make room in the PTY input channel as long as its write goes through, and
the actor can always finish handing over chunks.
-/

namespace Loraterm

open Utf8Text Mpsc Execution

namespace KernelBuffer

theorem size_put {buffer next : KernelBuffer} {bytes : List UInt8}
    (put_some : buffer.put bytes = some next) : next.size = buffer.size := by
  simp only [put] at put_some
  split at put_some
  · obtain rfl := Option.some.inj put_some
    rfl
  · cases put_some

theorem free_consume_all (buffer : KernelBuffer) :
    (buffer.consume buffer.bytes.length).free = buffer.size := by
  simp [free, consume]

end KernelBuffer

namespace Pty

variable {allowed : PtyAction → Prop}

/-- The same accepted payloads with a free slot behind them. -/
structure Relieved (pty next : Pty) : Prop where
  sound : next.Sound
  receiving : next.input.receiving = true
  room : ¬ next.input.Full
  accepted : next.input.accepted = pty.input.accepted
  alive : next.childAlive = pty.childAlive
  size : next.kernelIn.size = pty.kernelIn.size

theorem Relieved.of_same {pty middle next : Pty} (relieved : middle.Relieved next)
    (accepted : middle.input.accepted = pty.input.accepted)
    (alive : middle.childAlive = pty.childAlive)
    (size : middle.kernelIn.size = pty.kernelIn.size) : pty.Relieved next where
  sound := relieved.sound
  receiving := relieved.receiving
  room := relieved.room
  accepted := relieved.accepted.trans accepted
  alive := relieved.alive.trans alive
  size := relieved.size.trans size

/-- An idle writer thread takes a payload from a full channel. -/
theorem relieved_of_idle {pty : Pty} (sound : pty.Sound) (permitted : allowed .writerReceive)
    (idle : pty.writer = .idle) : ∃ next, Leads step allowed pty next ∧ pty.Relieved next := by
  have opened : pty.input.receiving = true := sound.receiving.mpr (by simp [idle])
  by_cases full : pty.input.Full
  · have waiting : pty.input.items ≠ [] := by
      intro empty
      rw [Channel.Full, empty, sound.capacity] at full
      cases full
    obtain ⟨payload, input, received⟩ := Channel.exists_recv waiting
    have stepped : pty.step .writerReceive = some { pty with input, writer := .writing payload } := by
      simp only [step, writerReceive, idle, received]
    obtain ⟨-, -, -, -, -, receiving⟩ := Channel.recv_eq_some received
    exact ⟨_, .single permitted stepped, sound.step stepped, receiving.trans opened,
      Channel.not_full_of_recv received, Channel.accepted_recv received, rfl, rfl⟩
  · exact ⟨pty, .refl pty, sound, opened, full, rfl, rfl, rfl⟩

/-- A writer thread whose payload fits the kernel's buffer makes room. -/
theorem relieved_of_fitting {pty : Pty} {rest : List UInt8} (sound : pty.Sound)
    (write_permitted : ∀ count, allowed (.writerWrite count))
    (receive_permitted : allowed .writerReceive) (writing : pty.writer = .writing rest)
    (fits : rest.length ≤ pty.kernelIn.free) :
    ∃ next, Leads step allowed pty next ∧ pty.Relieved next := by
  obtain ⟨kernelIn, written⟩ := KernelBuffer.exists_put fits
  have stepped : pty.step (.writerWrite rest.length) =
      some { pty with kernelIn, writer := .idle } := by
    simp [step, writerWrite, writing, written]
  obtain ⟨next, leads, relieved⟩ :=
    relieved_of_idle (sound.step stepped) receive_permitted rfl
  exact ⟨next, .head (write_permitted _) stepped leads,
    relieved.of_same rfl rfl (KernelBuffer.size_put written)⟩

/-- A child that reads lets the writer thread write a byte. -/
theorem write_byte {pty : Pty} {byte : UInt8} {rest : List UInt8} (sound : pty.Sound)
    (alive : pty.childAlive = true) (sized : 0 < pty.kernelIn.size)
    (writing : pty.writer = .writing (byte :: rest)) :
    ∃ next, Leads step (fun _ => True) pty next ∧ next.Sound ∧
      next.writer = (if rest = [] then .idle else .writing rest) ∧ next.input = pty.input ∧
        next.childAlive = pty.childAlive ∧ next.kernelIn.size = pty.kernelIn.size := by
  let drained : Pty := { pty with kernelIn := pty.kernelIn.consume pty.kernelIn.bytes.length }
  have read : pty.step (.childRead pty.kernelIn.bytes.length) = some drained := by
    simp only [step, alive, if_true, drained]
  have fits : [byte].length ≤ drained.kernelIn.free := by
    rw [KernelBuffer.free_consume_all]
    exact sized
  obtain ⟨kernelIn, written⟩ := KernelBuffer.exists_put fits
  let after : Pty :=
    { drained with kernelIn, writer := if rest = [] then .idle else .writing rest }
  have wrote : drained.step (.writerWrite 1) = some after := by
    have still_writing : drained.writer = .writing (byte :: rest) := writing
    simp [step, writerWrite, still_writing, written, after]
  have size_eq : kernelIn.size = drained.kernelIn.size := KernelBuffer.size_put written
  exact ⟨after, .head trivial read (.single trivial wrote), (sound.step read).step wrote, rfl, rfl,
    rfl, size_eq⟩

/-- With a child that reads, the writer thread writes its payload and makes room. -/
theorem relieved_of_reading {pty : Pty} (sound : pty.Sound) (opened : pty.input.receiving = true)
    (alive : pty.childAlive = true) (sized : 0 < pty.kernelIn.size) :
    ∃ next, Leads step (fun _ => True) pty next ∧ pty.Relieved next := by
  cases writing : pty.writer with
  | idle => exact relieved_of_idle sound trivial writing
  | exited => exact (sound.receiving.mp opened writing).elim
  | writing rest =>
      induction rest generalizing pty with
      | nil => exact relieved_of_fitting sound (fun _ => trivial) trivial writing (Nat.zero_le _)
      | cons byte rest ih =>
          obtain ⟨middle, leads, sound_after, writer_eq, input_eq, alive_eq, size_eq⟩ :=
            write_byte sound alive sized writing
          have relieved : ∃ next, Leads step (fun _ => True) middle next ∧ middle.Relieved next := by
            by_cases last : rest = []
            · exact relieved_of_idle sound_after trivial (by rw [writer_eq, if_pos last])
            · exact ih sound_after (input_eq ▸ opened) (alive_eq.trans alive) (size_eq ▸ sized)
                (by rw [writer_eq, if_neg last])
          obtain ⟨next, leads_on, relieved⟩ := relieved
          exact ⟨next, leads.trans leads_on,
            relieved.of_same (by rw [input_eq]) alive_eq size_eq⟩

end Pty

namespace Session

variable {strip : List UInt8 → List UInt8} {allowed : SessionAction → Prop}

theorem leads_of_pty {session : Session} {pty : Pty} {permitted : PtyAction → Prop}
    (leads : Leads Pty.step permitted session.pty pty)
    (kept : ∀ action, permitted action → allowed (.pty action)) :
    Leads (step strip) allowed session { session with pty } := by
  have embedded : ∀ (before : Pty) (action : PtyAction) (after : Pty),
      before.step action = some after →
        step strip { session with pty := before } (.pty action) =
          some { session with pty := after } := by
    intro before action after stepped
    simp only [step, stepped, Option.map_some]
  exact leads.lift (fun pty => { session with pty }) SessionAction.pty embedded kept

/-- The marker loop of a dropped chunk ends. -/
theorem marker_loop_ends {session : Session} {chunks : List Text} (wake : Wake)
    (permitted : allowed (.actor wake)) (enqueuing : session.phase = .enqueuing chunks) :
    ∃ outbound, outbound.attempt = none ∧
      Leads (step strip) allowed session { session with outbound } := by
  obtain ⟨left, left_eq⟩ : ∃ left, 6 - session.outbound.attempt.getD 6 = left := ⟨_, rfl⟩
  induction left using Nat.strong_induction_on generalizing session with
  | h left ih =>
      cases trying : session.outbound.attempt with
      | none => exact ⟨session.outbound, trying, .refl session⟩
      | some dropped =>
          obtain ⟨next, retried⟩ : ∃ next, session.outbound.retry = some next := by
            simp only [Outbound.retry, trying]
            split
            · exact ⟨_, rfl⟩
            · split
              · exact ⟨_, rfl⟩
              · exact ⟨_, rfl⟩
          have stepped : session.step strip (.actor wake) =
              some { session with outbound := next } := by
            simp [step, actor, enqueuing, enqueueNext, trying, retried]
          have onward : next.attempt = none ∨
              6 - next.attempt.getD 6 < 6 - session.outbound.attempt.getD 6 := by
            obtain ⟨count, count_eq, ⟨queue, -, rfl⟩ | ⟨refusal, -, ⟨-, rfl⟩ | ⟨few, rfl⟩⟩⟩ :=
              Outbound.retry_cases retried
            · exact .inl rfl
            · exact .inl rfl
            · right
              rw [count_eq, Option.getD_some, Option.getD_some]
              omega
          obtain resting | fewer := onward
          · exact ⟨next, resting, .single permitted stepped⟩
          · have still : ({ session with outbound := next } : Session).phase = .enqueuing chunks :=
              enqueuing
            obtain ⟨outbound, resting, leads⟩ := ih _ (left_eq ▸ fewer) still rfl
            exact ⟨outbound, resting, .head permitted stepped leads⟩

/-- The actor hands over its chunks and gets back to the top of its loop. -/
theorem enqueuing_ends {session : Session} {chunks : List Text} (wake : Wake)
    (permitted : allowed (.actor wake)) (enqueuing : session.phase = .enqueuing chunks) :
    ∃ outbound, Leads (step strip) allowed session { session with outbound, phase := .selecting } := by
  induction chunks generalizing session with
  | nil =>
      obtain ⟨outbound, resting, leads⟩ := marker_loop_ends wake permitted enqueuing
      have stepped : step strip { session with outbound } (.actor wake) =
          some { session with outbound, phase := .selecting } := by
        simp [step, actor, enqueuing, enqueueNext, resting]
      exact ⟨outbound, leads.trans (.single permitted stepped)⟩
  | cons chunk rest ih =>
      obtain ⟨outbound, resting, leads⟩ := marker_loop_ends wake permitted enqueuing
      obtain ⟨offered, offer⟩ : ∃ offered, outbound.offer chunk = some offered := by
        simp only [Outbound.offer, resting, Option.isSome_none, Bool.false_eq_true, if_false]
        split <;> exact ⟨_, rfl⟩
      have stepped : step strip { session with outbound } (.actor wake) =
          some { session with outbound := offered, phase := .enqueuing rest } := by
        simp [step, actor, enqueuing, enqueueNext, resting, offer]
      have still : ({ session with outbound := offered, phase := .enqueuing rest } : Session).phase =
          .enqueuing rest := rfl
      obtain ⟨final, leads_on⟩ := ih still
      exact ⟨final, leads.trans (.head permitted stepped leads_on)⟩

/-- With room in the PTY input channel the payload in hand goes through. -/
theorem forwarding_ends {session : Session} {payload : List UInt8} {pty : Pty} (wake : Wake)
    (leads : Leads (step strip) allowed session { session with pty })
    (permitted : allowed (.actor wake)) (forwarding : session.phase = .forwarding payload)
    (receiving : pty.input.receiving = true) (room : ¬ pty.input.Full) :
    ∃ input, pty.input.trySend payload = .ok input ∧
      Leads (step strip) allowed session
        { session with pty := { pty with input }, phase := .selecting } := by
  obtain ⟨input, sent⟩ := (Channel.trySend_isOk_iff payload).mpr ⟨receiving, room⟩
  have stepped : step strip { session with pty } (.actor wake) =
      some { session with pty := { pty with input }, phase := .selecting } := by
    simp only [step, actor, forwarding, forward, sent]
  exact ⟨input, sent, leads.trans (.single permitted stepped)⟩

end Session

end Loraterm
