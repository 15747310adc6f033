import Loraterm.SessionSteps

/-!
# Invariants of a session

What holds of a session in every state it can reach, whatever the daemon, the threads and the
child do.
-/

namespace Loraterm

open Utf8Text Mpsc Execution

/-! ## The PTY -/

/-- The input channel has its slots, and is open as long as the writer thread runs. -/
structure Pty.Sound (pty : Pty) : Prop where
  capacity : pty.input.capacity = inputCapacity
  receiving : pty.input.receiving = true ↔ pty.writer ≠ .exited

namespace Pty

theorem sound_spawn (inSize outSize : Nat) : (spawn inSize outSize).Sound :=
  ⟨rfl, by simp [spawn, Channel.empty]⟩

theorem Sound.step {pty next : Pty} {action : PtyAction} (sound : pty.Sound)
    (stepped : pty.step action = some next) : next.Sound := by
  have outward : action.ofWriter = false → next.Sound := by
    intro other
    obtain ⟨input_eq, writer_eq, -⟩ := inward_of_step stepped other
    exact ⟨by rw [input_eq, sound.capacity], by rw [input_eq, writer_eq, sound.receiving]⟩
  cases action with
  | writerReceive =>
      obtain ⟨idle, taken | ended⟩ := writerReceive_cases stepped
      · obtain ⟨payload, input, received, rfl⟩ := taken
        obtain ⟨-, capacity, -, -, -, receiving⟩ := Channel.recv_eq_some received
        refine ⟨capacity.trans sound.capacity, ?_⟩
        have opened : pty.input.receiving = true := sound.receiving.mpr (by simp [idle])
        simp [receiving, opened]
      · obtain ⟨-, -, rfl⟩ := ended
        exact ⟨sound.capacity, by simp [Channel.dropReceiver]⟩
  | writerWrite count =>
      obtain ⟨rest, kernelIn, writing, -, rfl⟩ := writerWrite_cases stepped
      refine ⟨sound.capacity, ?_⟩
      have opened : pty.input.receiving = true := sound.receiving.mpr (by simp [writing])
      simp only [opened, true_iff]
      split <;> simp
  | writerFails =>
      obtain rfl := writerFails_cases stepped
      exact ⟨sound.capacity, by simp [Channel.dropReceiver]⟩
  | readerRead count => exact outward rfl
  | readerSend => exact outward rfl
  | readerEnds => exact outward rfl
  | childRead count => exact outward rfl
  | childWrite bytes => exact outward rfl
  | childExit => exact outward rfl

end Pty

/-! ## The session -/

/-- What holds of a session at all times. -/
structure Session.Sound (session : Session) : Prop where
  /-- The input channel is open as long as the actor's task runs. -/
  live : session.input.receiving = !session.phase.isOver
  queue : session.outbound.Sound
  settled : session.outbound.attempt.isSome = true → ∃ chunks, session.phase = .enqueuing chunks
  sending : session.outbound.queue.sending = session.phase.offers
  /-- The sender task hands over what it takes, in that order. -/
  handed : session.handed ++ session.sender.inHand = session.outbound.queue.taken
  ended : session.sender = .done →
    session.outbound.queue.items = [] ∧ session.outbound.queue.sending = false
  pty : session.pty.Sound

namespace Session

variable {strip : List UInt8 → List UInt8}

theorem sound_spawn {peer : ValidatedPeer} {limits : LimitsConfig} {chunking : ChunkingConfig}
    {pty : Pty} {unixSecs : Nat} {session : Session} (pty_sound : pty.Sound)
    (created : spawn peer limits chunking pty unixSecs = some session) : session.Sound := by
  have fresh := fresh_of_spawn created
  exact
    { live := by rw [fresh.input, fresh.phase]; rfl
      queue := by rw [fresh.outbound]; exact Outbound.sound_new _
      settled := by simp [fresh.outbound, Outbound.new]
      sending := by rw [fresh.outbound, fresh.phase]; rfl
      handed := by rw [fresh.handed, fresh.sender, fresh.outbound]; rfl
      ended := by simp [fresh.sender]
      pty := fresh.pty ▸ pty_sound }

theorem Sound.resting {session : Session} (sound : session.Sound)
    (settled : ∀ chunks, session.phase ≠ .enqueuing chunks) : session.outbound.attempt = none := by
  cases trying : session.outbound.attempt with
  | none => rfl
  | some dropped =>
      obtain ⟨chunks, enqueuing⟩ := sound.settled (by rw [trying]; rfl)
      exact (settled chunks enqueuing).elim

theorem Sound.not_done {session : Session} (sound : session.Sound)
    (offering : session.phase.offers = true) : session.sender ≠ .done := by
  intro done
  have closed := (sound.ended done).2
  rw [sound.sending, offering] at closed
  cases closed

/-- The actor moves within the loop, or into the last sends, and its queue with it. -/
theorem Sound.offering {session next : Session} (sound : session.Sound)
    (before : session.phase.isOver = false ∧ session.phase.offers = true)
    (after : next.phase.isOver = false ∧ next.phase.offers = true)
    (input : next.input.receiving = session.input.receiving)
    (queue : next.outbound.Sound) (kept : session.outbound.Kept next.outbound)
    (settled : next.outbound.attempt.isSome = true → ∃ chunks, next.phase = .enqueuing chunks)
    (sender : next.sender = session.sender) (handed : next.handed = session.handed)
    (pty : next.pty.Sound) : next.Sound where
  live := by rw [input, sound.live, before.1, after.1]
  queue := queue
  settled := settled
  sending := by rw [kept.sending, sound.sending, before.2, after.2]
  handed := by rw [handed, sender, kept.taken, sound.handed]
  ended := by
    intro done
    exact (sound.not_done before.2 (sender ▸ done)).elim
  pty := pty

theorem Sound.actorStep {session next : Session} (sound : session.Sound)
    (stepped : ActorStep strip session next) : next.Sound := by
  cases stepped with
  | @moved phase within empty_handed settled target =>
      have after : phase.isOver = false ∧ phase.offers = true := by
        obtain rfl | rfl := target <;> exact ⟨rfl, rfl⟩
      have resting : session.outbound.attempt = none := by
        cases trying : session.outbound.attempt with
        | none => rfl
        | some dropped =>
            obtain ⟨chunks, enqueuing⟩ := sound.settled (by rw [trying]; rfl)
            rw [settled chunks enqueuing] at trying
            cases trying
      exact sound.offering
        ⟨ActorPhase.not_over_of_inLoop within, ActorPhase.offers_of_inLoop within⟩ after rfl
        sound.queue (.refl _) (by simp [resting]) rfl rfl sound.pty
  | crashed within settled =>
      exact
        { live := rfl
          queue := sound.queue.dropSender
          settled := by simp [crash, sound.resting settled]
          sending := rfl
          handed := sound.handed
          ended := fun done => ⟨(sound.ended done).1, rfl⟩
          pty := ⟨sound.pty.capacity, sound.pty.receiving⟩ }
  | left within settled rest =>
      exact sound.offering
        ⟨ActorPhase.not_over_of_inLoop within, ActorPhase.offers_of_inLoop within⟩ ⟨rfl, rfl⟩ rfl
        sound.queue (.refl _) (by simp [sound.resting settled]) rfl rfl sound.pty
  | took listening received =>
      obtain ⟨-, -, -, -, -, receiving⟩ := Channel.recv_eq_some received
      exact sound.offering (by rw [listening]; exact ⟨rfl, rfl⟩) ⟨rfl, rfl⟩ receiving
        sound.queue (.refl _) (by simp [sound.resting (by simp [listening])]) rfl rfl sound.pty
  | chunked listening =>
      exact sound.offering (by rw [listening]; exact ⟨rfl, rfl⟩) ⟨rfl, rfl⟩ rfl
        sound.queue (.refl _) (fun _ => ⟨_, rfl⟩) rfl rfl ⟨sound.pty.capacity, sound.pty.receiving⟩
  | retried enqueuing retry =>
      exact sound.offering (by rw [enqueuing]; exact ⟨rfl, rfl⟩) (by rw [enqueuing]; exact ⟨rfl, rfl⟩)
        rfl (sound.queue.retry retry) (Outbound.kept_of_retry retry) (fun _ => ⟨_, enqueuing⟩) rfl
        rfl sound.pty
  | offered enqueuing offer =>
      exact sound.offering (by rw [enqueuing]; exact ⟨rfl, rfl⟩) ⟨rfl, rfl⟩ rfl
        (sound.queue.offer offer) (Outbound.kept_of_offer offer) (fun _ => ⟨_, rfl⟩) rfl rfl
        sound.pty
  | forwarded forwarding sent =>
      obtain ⟨-, -, capacity, -, -, -, -, receiving⟩ := Channel.trySend_ok sent
      exact sound.offering (by rw [forwarding]; exact ⟨rfl, rfl⟩) ⟨rfl, rfl⟩ rfl sound.queue
        (.refl _) (by simp [sound.resting (by simp [forwarding])]) rfl rfl
        ⟨capacity.trans sound.pty.capacity, by rw [receiving, sound.pty.receiving]⟩
  | flushed flushing send =>
      exact sound.offering (by rw [flushing]; exact ⟨rfl, rfl⟩) ⟨rfl, rfl⟩ rfl
        (sound.queue.sendLast send) (Outbound.kept_of_sendLast send)
        (by simp [Outbound.attempt_of_sendLast send]) rfl rfl sound.pty
  | closed flushing =>
      exact
        { live := by rw [sound.live, flushing]; rfl
          queue := sound.queue.dropSender
          settled := by simp [sound.resting (by simp [flushing])]
          sending := rfl
          handed := sound.handed
          ended := fun done => ⟨(sound.ended done).1, rfl⟩
          pty := sound.pty }
  | joined joining done =>
      exact
        { live := by rw [sound.live, joining]; rfl
          queue := sound.queue
          settled := by simp [sound.resting (by simp [joining])]
          sending := by rw [sound.sending, joining]; rfl
          handed := sound.handed
          ended := sound.ended
          pty := ⟨sound.pty.capacity, sound.pty.receiving⟩ }
  | reaped reaping =>
      exact
        { live := rfl
          queue := sound.queue
          settled := by simp [reap, sound.resting (by simp [reaping])]
          sending := by rw [reap, sound.sending, reaping]; rfl
          handed := sound.handed
          ended := sound.ended
          pty := ⟨sound.pty.capacity, sound.pty.receiving⟩ }

/-- The sender task takes the next chunk. -/
theorem Sound.received {session : Session} {chunk : Text} {outbound : Outbound}
    (sound : session.Sound) (waiting : session.sender = .waiting)
    (taken : session.outbound.receive = some (chunk, outbound)) :
    Sound { session with outbound, sender := .holding chunk } := by
  have queue_sound := sound.queue.receive taken
  obtain ⟨queue, queue_received, rfl⟩ := Outbound.receive_cases taken
  obtain ⟨-, -, taken_eq, -, sending_eq, -⟩ := Channel.recv_eq_some queue_received
  have handed := sound.handed
  rw [waiting] at handed
  simp only [SenderPhase.inHand, List.append_nil] at handed
  refine { sound with queue := queue_sound, sending := ?_, handed := ?_, ended := by simp }
  · exact sending_eq.trans sound.sending
  · rw [taken_eq, ← handed]
    rfl

theorem Sound.step {session next : Session} {action : SessionAction} (sound : session.Sound)
    (stepped : session.step strip action = some next) : next.Sound := by
  cases sessionStep_of_step stepped with
  | delivered sent =>
      obtain ⟨-, -, -, -, -, -, -, receiving⟩ := Channel.trySend_ok sent
      exact { sound with live := receiving.trans sound.live }
  | refused =>
      exact ⟨sound.live, sound.queue, sound.settled, sound.sending, sound.handed, sound.ended,
        sound.pty⟩
  | dismissed => exact { sound with }
  | forgotten => exact { sound with }
  | acted acted => exact sound.actorStep (actorStep_of_actor acted)
  | received waiting taken => exact sound.received waiting taken
  | drained waiting finished =>
      have handed := sound.handed
      rw [waiting] at handed
      refine { sound with handed := handed, ended := fun _ => ?_ }
      simpa [Channel.finished] using finished
  | handed holding =>
      have handed := sound.handed
      rw [holding] at handed
      refine { sound with handed := ?_, ended := by simp }
      simpa [SenderPhase.inHand] using handed
  | bridged pty_stepped => exact { sound with pty := sound.pty.step pty_stepped }

/-- Whatever is done to a session leaves it sound. -/
theorem sound_of_run {session final : Session} {schedule : List SessionAction}
    (ran : run (Session.step strip) session schedule = some final) (sound : session.Sound) :
    final.Sound :=
  invariant_of_run (fun _ _ _ sound stepped => Sound.step sound stepped) ran sound

end Session

end Loraterm
