import Loraterm.Farewell
import Loraterm.OutputPipeline

/-!
# Why sessions end

The farewell names a reason, and the reason is true: an idle session was not touched for longer than
its timeout, the child is gone when the PTY is closed or at its end, and a session is revoked or shut
down when the daemon said so.
-/

namespace Loraterm

open Utf8Text Mpsc WatchChannel Execution

/-- The reason of an actor that left its loop. -/
def ActorPhase.reason : ActorPhase → Option Reason
  | .flushing reason _ | .joining reason | .reaping reason | .returned reason => some reason
  | _ => none

theorem ActorPhase.reason_of_inLoop {phase : ActorPhase} (within : phase.inLoop = true) :
    phase.reason = none := by
  cases phase <;> first | rfl | cases within

theorem ActorPhase.crashed_of_no_reason {phase : ActorPhase} (gone : ¬ phase.inLoop = true)
    (no_reason : phase.reason = none) : phase = .crashed := by
  cases phase <;> first | rfl | exact (gone rfl).elim | cases no_reason

namespace Session

/-- Whether a poll of the arms takes a line or some output. -/
def takes (session : Session) (wake : Wake) : Bool :=
  !wake.tick && !session.silenceReady wake &&
    (!session.input.items.isEmpty ||
      (session.input.sending && !session.pty.output.items.isEmpty))

/-- When a step touches the session: a line is delivered, or the actor takes a line or some output. -/
def touches (session : Session) : SessionAction → List Nat
  | .deliver _ unixSecs => [unixSecs]
  | .actor wake =>
      if session.phase = .listening ∧ session.takes wake = true then [wake.unixSecs] else []
  | _ => []

variable {strip : List UInt8 → List UInt8} {session next : Session} {action : SessionAction}
  {wake : Wake} {reason : Reason}

/-! ## The last activity -/

theorem not_inLoop_leaveLoop (strip : List UInt8 → List UInt8) (session : Session) (reason : Reason) :
    ¬ (session.leaveLoop strip reason).phase.inLoop = true := by
  simp [leaveLoop_inLoop]

theorem lastActivity_pollArms (polled : session.pollArms strip wake = next)
    (still : next.phase.inLoop = true) :
    next.lastActivity =
      if session.takes wake = true then asI64 wake.unixSecs else session.lastActivity := by
  simp only [pollArms] at polled
  split at polled
  · rename_i tick
    split at polled
    · exact (not_inLoop_leaveLoop strip session .idle (polled ▸ still)).elim
    · simp [← polled, takes, tick]
  · rename_i no_tick
    split at polled
    · rename_i silence
      split at polled
      · subst polled
        cases still
      · simp [← polled, takes, silence]
    · rename_i no_silence
      split at polled
      · rename_i line input received
        have waiting : session.input.items ≠ [] := by
          rintro empty
          rw [Channel.recv_eq_none_iff.mpr empty] at received
          cases received
        simp [← polled, takes, no_tick, no_silence, waiting]
      · rename_i received
        have empty := Channel.recv_eq_none_iff.mp received
        split at polled
        · exact (not_inLoop_leaveLoop strip session .inputClosed (polled ▸ still)).elim
        · rename_i unfinished
          have sending : session.input.sending = true := by
            simpa [Channel.finished, empty] using unfinished
          split at polled
          · rename_i bytes output taken
            have waiting : session.pty.output.items ≠ [] := by
              rintro none_left
              rw [Channel.recv_eq_none_iff.mpr none_left] at taken
              cases taken
            split at polled
            · subst polled
              cases still
            · simp [← polled, takes, no_tick, no_silence, sending, waiting]
          · rename_i taken
            have none_left := Channel.recv_eq_none_iff.mp taken
            split at polled
            · exact (not_inLoop_leaveLoop strip session .ptyEof (polled ▸ still)).elim
            · simp [← polled, takes, empty, none_left]

/-- What a step does to the last activity. -/
theorem touched_of_step (stepped : session.step strip action = some next)
    (still : next.phase.inLoop = true) :
    (session.touches action = [] ∧ next.lastActivity = session.lastActivity) ∨
      ∃ instant, session.touches action = [instant] ∧ next.lastActivity = asI64 instant := by
  cases sessionStep_of_step stepped with
  | @acted wake _ acted =>
      by_cases listening : session.phase = .listening
      · simp only [actor, listening] at acted
        have now := lastActivity_pollArms (Option.some.inj acted) still
        by_cases takes : session.takes wake = true
        · rw [if_pos takes] at now
          exact .inr ⟨wake.unixSecs, if_pos ⟨listening, takes⟩, now⟩
        · rw [if_neg takes] at now
          exact .inl ⟨if_neg fun both => takes both.2, now⟩
      · refine .inl ⟨if_neg fun both => listening both.1, ?_⟩
        cases actorStep_of_actor acted with
        | crashed => cases still
        | took here => exact (listening here).elim
        | chunked here => exact (listening here).elim
        | _ => rfl
  -- the kernel is not to unfold the conversion of the instant
  | @delivered _ unixSecs _ _ => exact .inr ⟨unixSecs, rfl, by dsimp only⟩
  | @refused _ unixSecs => exact .inr ⟨unixSecs, rfl, by dsimp only⟩
  | _ => exact .inl ⟨rfl, rfl⟩

/-! ## What the arms see when the loop is left -/

/-- What an actor that leaves its loop has seen. -/
inductive Left (session : Session) (wake : Wake) : Reason → Prop
  | told {reason : Reason} (sent : session.shutdown = .sent reason) : Left session wake reason
  | dropped (dropped : session.shutdown = .dropped) : Left session wake .shutdown
  | idle (listening : session.phase = .listening) (tick : wake.tick = true)
      (exceeded : asI64 (asSecs session.idleTimeout) < asI64 wake.unixSecs - session.lastActivity) :
      Left session wake .idle
  | inputClosed (empty : session.input.items = []) (closed : session.input.sending = false) :
      Left session wake .inputClosed
  | ptyEof (empty : session.pty.output.items = []) (closed : session.pty.output.sending = false) :
      Left session wake .ptyEof
  | ptyClosed (closed : session.pty.input.receiving = false) : Left session wake .ptyClosed

theorem reason_leaveLoop {told : Reason}
    (reason_eq : (session.leaveLoop strip told).phase.reason = some reason) : told = reason := by
  rw [leaveLoop] at reason_eq
  split at reason_eq
  · cases reason_eq
  · exact Option.some.inj reason_eq

theorem left_of_actor (within : session.phase.inLoop = true)
    (stepped : session.actor strip wake = some next) (reason_eq : next.phase.reason = some reason) :
    session.Left wake reason := by
  simp only [actor] at stepped
  split at stepped
  · obtain rfl := Option.some.inj stepped
    rw [start] at reason_eq
    split at reason_eq <;> cases reason_eq
  · obtain rfl := Option.some.inj stepped
    simp only [pollShutdown] at reason_eq
    split at reason_eq
    · cases reason_eq
    · split at reason_eq
      · cases reason_eq
      · rename_i told sent
        obtain rfl := reason_leaveLoop reason_eq
        exact .told sent
      · rename_i dropped
        obtain rfl := reason_leaveLoop reason_eq
        exact .dropped dropped
  · rename_i listening
    obtain rfl := Option.some.inj stepped
    simp only [pollArms] at reason_eq
    split at reason_eq
    · rename_i tick
      split at reason_eq
      · rename_i exceeded
        obtain rfl := reason_leaveLoop reason_eq
        exact .idle listening tick exceeded
      · cases reason_eq
    · split at reason_eq
      · split at reason_eq <;> cases reason_eq
      · split at reason_eq
        · cases reason_eq
        · rename_i empty
          split at reason_eq
          · rename_i finished
            obtain rfl := reason_leaveLoop reason_eq
            have both : session.input.items = [] ∧ session.input.sending = false := by
              simpa [Channel.finished] using finished
            exact .inputClosed both.1 both.2
          · split at reason_eq
            · split at reason_eq <;> cases reason_eq
            · split at reason_eq
              · rename_i finished
                obtain rfl := reason_leaveLoop reason_eq
                have both : session.pty.output.items = [] ∧ session.pty.output.sending = false := by
                  simpa [Channel.finished] using finished
                exact .ptyEof both.1 both.2
              · cases reason_eq
  · rename_i chunks enqueuing
    simp only [enqueueNext] at stepped
    split at stepped
    · obtain ⟨outbound, -, rfl⟩ := Option.map_eq_some_iff.mp stepped
      rw [enqueuing] at reason_eq
      cases reason_eq
    · split at stepped
      · obtain rfl := Option.some.inj stepped
        cases reason_eq
      · obtain ⟨outbound, -, rfl⟩ := Option.map_eq_some_iff.mp stepped
        cases reason_eq
  · simp only [forward] at stepped
    split at stepped
    · obtain rfl := Option.some.inj stepped
      cases reason_eq
    · cases stepped
    · rename_i closed
      obtain rfl := Option.some.inj stepped
      obtain rfl := reason_leaveLoop reason_eq
      exact .ptyClosed (Channel.trySend_closed closed)
  · rename_i flushing
    rw [flushing] at within
    cases within
  · rename_i joining
    rw [joining] at within
    cases within
  · rename_i reaping
    rw [reaping] at within
    cases within
  · cases stepped
  · cases stepped

end Session

/-! ## The terminal -/

/-- The threads of a PTY end with the child, or when nobody is at the other end of their channel. -/
structure Pty.Attached (pty : Pty) : Prop where
  writer : pty.input.sending = true → pty.writer = .exited → pty.childAlive = false
  reader : pty.output.receiving = true → pty.reader = .exited →
    pty.childAlive = false ∧ pty.kernelOut.bytes = []
  sender : pty.output.sending = false → pty.reader = .exited

namespace Pty

variable {pty next : Pty} {action : PtyAction}

theorem Attached.of_same (attached : pty.Attached)
    (typing : next.input.sending = true → pty.input.sending = true)
    (listening : next.output.receiving = true → pty.output.receiving = true)
    (sending : next.output.sending = pty.output.sending) (writer : next.writer = pty.writer)
    (reader : next.reader = pty.reader) (kernelOut : next.kernelOut = pty.kernelOut)
    (childAlive : next.childAlive = pty.childAlive) : next.Attached where
  writer := by
    rw [writer, childAlive]
    exact fun open_end => attached.writer (typing open_end)
  reader := by
    rw [reader, kernelOut, childAlive]
    exact fun open_end => attached.reader (listening open_end)
  sender := by
    rw [sending, reader]
    exact attached.sender

/-- Where a child is alive, the threads have not ended. -/
theorem Attached.of_alive (attached : pty.Attached) (alive : pty.childAlive = true)
    (input : next.input = pty.input) (output : next.output = pty.output)
    (writer : next.writer = pty.writer) (reader : next.reader = pty.reader) : next.Attached where
  writer := by
    rw [input, writer]
    intro open_end exited
    rw [attached.writer open_end exited] at alive
    cases alive
  reader := by
    rw [output, reader]
    intro open_end exited
    rw [(attached.reader open_end exited).1] at alive
    cases alive
  sender := by
    rw [output, reader]
    exact attached.sender

/-- Neither the threads nor the child drop the sending end of the input channel. -/
theorem sending_of_step (stepped : pty.step action = some next) :
    next.input.sending = pty.input.sending := by
  have outward : action.ofWriter = false → next.input.sending = pty.input.sending := by
    intro other
    rw [(inward_of_step stepped other).1]
  cases action with
  | writerReceive =>
      obtain ⟨-, ⟨payload, input, received, rfl⟩ | ⟨-, -, rfl⟩⟩ := writerReceive_cases stepped
      · obtain ⟨-, -, -, -, sending, -⟩ := Channel.recv_eq_some received
        exact sending
      · rfl
  | writerWrite count =>
      obtain ⟨rest, kernelIn, -, -, rfl⟩ := writerWrite_cases stepped
      rfl
  | writerFails =>
      obtain rfl := writerFails_cases stepped
      rfl
  | _ => exact outward rfl

theorem attached_spawn (inSize outSize : Nat) : (spawn inSize outSize).Attached :=
  ⟨fun _ exited => (by cases exited), fun _ exited => (by cases exited), fun gone => (by cases gone)⟩

theorem Attached.step (attached : pty.Attached) (stepped : pty.step action = some next) :
    next.Attached := by
  cases action with
  | writerReceive =>
      obtain ⟨-, ⟨payload, input, received, rfl⟩ | ⟨-, finished, rfl⟩⟩ := writerReceive_cases stepped
      · exact ⟨fun _ exited => (by cases exited), attached.reader, attached.sender⟩
      · refine ⟨fun open_end _ => ?_, attached.reader, attached.sender⟩
        have open_end : pty.input.sending = true := open_end
        simp [Channel.finished, open_end] at finished
  | writerWrite count =>
      obtain ⟨rest, kernelIn, -, -, rfl⟩ := writerWrite_cases stepped
      refine ⟨fun _ exited => ?_, attached.reader, attached.sender⟩
      simp only at exited
      split at exited <;> cases exited
  | writerFails =>
      simp only [Pty.step, writerFails] at stepped
      split at stepped
      · split at stepped
        · cases stepped
        · rename_i gone
          obtain rfl := Option.some.inj stepped
          exact ⟨fun _ _ => by simpa using gone, attached.reader, attached.sender⟩
      · cases stepped
  | readerRead count =>
      simp only [Pty.step, readerRead] at stepped
      split at stepped
      · split at stepped
        · cases stepped
        · rename_i idle _
          obtain rfl := Option.some.inj stepped
          refine ⟨attached.writer, fun _ exited => (by cases exited), fun gone => ?_⟩
          have exited := attached.sender gone
          rw [idle] at exited
          cases exited
      · cases stepped
  | readerSend =>
      simp only [Pty.step, readerSend] at stepped
      split at stepped
      · rename_i bytes sending
        split at stepped
        · rename_i output sent
          obtain ⟨-, -, -, -, -, -, same, -⟩ := Channel.trySend_ok sent
          obtain rfl := Option.some.inj stepped
          refine ⟨attached.writer, fun _ exited => (by cases exited), fun gone => ?_⟩
          have exited := attached.sender (same.symm.trans gone)
          rw [sending] at exited
          cases exited
        · cases stepped
        · rename_i closed
          have gone := Channel.trySend_closed closed
          obtain rfl := Option.some.inj stepped
          refine ⟨attached.writer, fun listening _ => ?_, fun _ => rfl⟩
          have listening : pty.output.receiving = true := listening
          rw [gone] at listening
          cases listening
      · cases stepped
  | readerEnds =>
      simp only [Pty.step, readerEnds] at stepped
      split at stepped
      · split at stepped
        · cases stepped
        · rename_i ended
          obtain rfl := Option.some.inj stepped
          refine ⟨attached.writer, fun _ _ => ?_, fun _ => rfl⟩
          simpa using ended
      · cases stepped
  | childRead count =>
      simp only [Pty.step] at stepped
      split at stepped
      · rename_i alive
        obtain rfl := Option.some.inj stepped
        exact attached.of_alive alive rfl rfl rfl rfl
      · cases stepped
  | childWrite bytes =>
      simp only [Pty.step] at stepped
      split at stepped
      · rename_i alive
        obtain ⟨kernelOut, -, rfl⟩ := Option.map_eq_some_iff.mp stepped
        exact attached.of_alive alive rfl rfl rfl rfl
      · cases stepped
  | childExit =>
      simp only [Pty.step] at stepped
      split at stepped
      · rename_i alive
        obtain rfl := Option.some.inj stepped
        exact attached.of_alive alive rfl rfl rfl rfl
      · cases stepped

end Pty

/-! ## What is known of a session -/

namespace Session

/-- What is known of a session that is treated properly. -/
structure Watched (session : Session) : Prop where
  told : ∀ reason, session.shutdown = .sent reason → reason = .revoked ∨ reason = .shutdown
  dropped : session.shutdown = .dropped → session.input.receiving = false
  /-- A handle does not go without a word. -/
  unheld : session.input.sending = false → session.shutdown ≠ .waiting
  typing : session.phase.inLoop = true → session.pty.input.sending = true
  attached : session.pty.Attached

variable {strip : List UInt8 → List UInt8} {session next : Session} {action : SessionAction}
  {wake : Wake} {reason : Reason}

theorem watched_spawn {peer : ValidatedPeer} {limits : LimitsConfig} {chunking : ChunkingConfig}
    {inSize outSize unixSecs : Nat}
    (created : spawn peer limits chunking (Pty.spawn inSize outSize) unixSecs = some session) :
    session.Watched := by
  have fresh := fresh_of_spawn created
  exact
    { told := by simp [fresh.shutdown]
      dropped := by simp [fresh.shutdown]
      unheld := by simp [fresh.input, Channel.empty]
      typing := by rw [fresh.pty]; exact fun _ => rfl
      attached := fresh.pty ▸ Pty.attached_spawn inSize outSize }

/-- What a step of the actor does to the ends of the channels. -/
theorem ActorStep.ends (stepped : ActorStep strip session next)
    (typing : session.phase.inLoop = true → session.pty.input.sending = true) :
    (next.phase.inLoop = true → next.pty.input.sending = true) ∧
      (next.pty.input.sending = true → session.pty.input.sending = true) ∧
        next.pty.writer = session.pty.writer ∧ next.input.sending = session.input.sending ∧
          (session.input.receiving = false → next.input.receiving = false) := by
  cases stepped with
  | moved within => exact ⟨fun _ => typing within, id, rfl, rfl, id⟩
  | crashed => exact ⟨fun still => (by cases still), fun gone => (by cases gone), rfl, rfl, fun _ => rfl⟩
  | left => exact ⟨fun still => (by cases still), id, rfl, rfl, id⟩
  | took listening received =>
      obtain ⟨-, -, -, -, sending, receiving⟩ := Channel.recv_eq_some received
      exact ⟨fun _ => typing (by rw [listening]; rfl), id, rfl, sending, fun gone => receiving.trans gone⟩
  | chunked listening => exact ⟨fun _ => typing (by rw [listening]; rfl), id, rfl, rfl, id⟩
  | retried enqueuing => exact ⟨typing, id, rfl, rfl, id⟩
  | offered enqueuing => exact ⟨fun _ => typing (by rw [enqueuing]; rfl), id, rfl, rfl, id⟩
  | forwarded forwarding sent =>
      obtain ⟨-, -, -, -, -, -, sending, -⟩ := Channel.trySend_ok sent
      have before := typing (by rw [forwarding]; rfl)
      exact ⟨fun _ => sending.trans before, fun _ => before, rfl, rfl, id⟩
  | flushed => exact ⟨fun still => (by cases still), id, rfl, rfl, id⟩
  | closed => exact ⟨fun still => (by cases still), id, rfl, rfl, id⟩
  | joined => exact ⟨fun still => (by cases still), fun gone => (by cases gone), rfl, rfl, id⟩
  | reaped => exact ⟨fun still => (by cases still), id, rfl, rfl, fun _ => rfl⟩

theorem Watched.actorStep (watched : session.Watched) (stepped : session.actor strip wake = some next) :
    next.Watched := by
  have kind := actorStep_of_actor stepped
  obtain ⟨-, sending, listening⟩ := (outputStep_of_actor stepped).channel
  obtain ⟨reader, kernelOut, childAlive⟩ := kind.terminal
  obtain ⟨typing, open_end, writer, held, gone⟩ := kind.ends watched.typing
  have shutdown := kind.shutdown
  refine ⟨?_, ?_, ?_, typing, ?_⟩
  · rw [shutdown]
    exact watched.told
  · rw [shutdown]
    exact fun dropped => gone (watched.dropped dropped)
  · rw [shutdown, held]
    exact watched.unheld
  · exact watched.attached.of_same open_end listening sending writer reader kernelOut childAlive

theorem Watched.step (watched : session.Watched) (proper : session.Proper action)
    (stepped : session.step strip action = some next) : next.Watched := by
  cases sessionStep_of_step stepped with
  | acted acted => exact watched.actorStep acted
  | delivered sent =>
      obtain ⟨-, -, -, -, -, -, sending, receiving⟩ := Channel.trySend_ok sent
      exact ⟨watched.told, fun dropped => receiving.trans (watched.dropped dropped),
        fun gone => watched.unheld (sending.symm.trans gone), watched.typing, watched.attached⟩
  | @dismissed reason =>
      refine ⟨fun told said => ?_, fun dropped => ?_, fun _ => ?_, watched.typing, watched.attached⟩
      · obtain before | same := sent_cases stepped said
        · exact watched.told told before
        · obtain rfl := SessionAction.dismiss.inj same
          exact proper
      · exact watched.dropped (dropped_of_step stepped (by simp) dropped)
      · simp only [dismiss]
        split
        · simp
        · assumption
  | forgotten =>
      have gone : session.input.receiving = false := proper
      refine ⟨fun told said => ?_, fun _ => gone, fun _ => ?_, watched.typing, watched.attached⟩
      · obtain before | other := sent_cases stepped said
        · exact watched.told told before
        · cases other
      · simp only [forget]
        split
        · simp
        · assumption
  | bridged pty_stepped =>
      refine ⟨watched.told, watched.dropped, watched.unheld, fun within => ?_,
        watched.attached.step pty_stepped⟩
      rw [Pty.sending_of_step pty_stepped]
      exact watched.typing within
  | _ => exact ⟨watched.told, watched.dropped, watched.unheld, watched.typing, watched.attached⟩

/-! ## Reasons -/

/-- What a reason says of a session that is about to leave its loop, last touched at an instant. -/
def Justifies (session : Session) (touched : Nat) (wake : Wake) : Reason → Prop
  | .shutdown => session.shutdown = .sent .shutdown
  | .revoked => session.shutdown = .sent .revoked
  | .idle =>
      wake.tick = true ∧
        asI64 (asSecs session.idleTimeout) < asI64 wake.unixSecs - asI64 touched
  | .ptyClosed => session.pty.childAlive = false
  | .inputClosed => session.input.items = [] ∧ ∃ told, session.shutdown = .sent told
  | .ptyEof =>
      session.pty.childAlive = false ∧
        session.pty.output.items = [] ∧ session.pty.kernelOut.bytes = []

theorem Left.justifies {touched : Nat} (left : session.Left wake reason)
    (watched : session.Watched) (sound : session.Sound) (listens : session.Listens)
    (within : session.phase.inLoop = true) (active : session.lastActivity = asI64 touched) :
    session.Justifies touched wake reason := by
  have alive : session.input.receiving = true := by
    rw [sound.live, ActorPhase.not_over_of_inLoop within]
    rfl
  have not_dropped : session.shutdown ≠ .dropped := by
    intro dropped
    rw [watched.dropped dropped] at alive
    cases alive
  cases left with
  | told sent =>
      obtain rfl | rfl := watched.told _ sent
      · exact sent
      · exact sent
  | dropped dropped => exact (not_dropped dropped).elim
  | idle listening tick exceeded =>
      rw [active] at exceeded
      exact ⟨tick, exceeded⟩
  | inputClosed empty closed =>
      refine ⟨empty, ?_⟩
      cases said : session.shutdown with
      | waiting => exact (watched.unheld closed said).elim
      | sent told => exact ⟨told, rfl⟩
      | dropped => exact (not_dropped said).elim
  | ptyEof empty closed =>
      obtain ⟨gone, drained⟩ := watched.attached.reader (listens within) (watched.attached.sender closed)
      exact ⟨gone, empty, drained⟩
  | ptyClosed closed =>
      refine watched.attached.writer (watched.typing within) ?_
      by_contra running
      rw [sound.pty.receiving.mpr running] at closed
      cases closed

/-- The reason of a session that left its loop stays. -/
theorem reason_of_step (left : session.phase.reason = some reason)
    (stepped : session.step strip action = some next) : next.phase.reason = some reason := by
  have out : session.phase.inLoop ≠ true := by
    intro within
    rw [ActorPhase.reason_of_inLoop within] at left
    cases left
  cases sessionStep_of_step stepped with
  | acted acted =>
      cases actorStep_of_actor acted with
      | moved within => exact (out within).elim
      | crashed within => exact (out within).elim
      | left within => exact (out within).elim
      | took listening => exact (out (by rw [listening]; rfl)).elim
      | chunked listening => exact (out (by rw [listening]; rfl)).elim
      | offered enqueuing => exact (out (by rw [enqueuing]; rfl)).elim
      | forwarded forwarding => exact (out (by rw [forwarding]; rfl)).elim
      | retried => exact left
      | flushed flushing => exact (congrArg ActorPhase.reason flushing).symm.trans left
      | closed flushing => exact (congrArg ActorPhase.reason flushing).symm.trans left
      | joined joining => exact (congrArg ActorPhase.reason joining).symm.trans left
      | reaped reaping => exact (congrArg ActorPhase.reason reaping).symm.trans left
  | _ => exact left

theorem crashed_of_step (crashed : session.phase = .crashed)
    (stepped : session.step strip action = some next) : next.phase = .crashed :=
  (over_of_step stepped (by rw [crashed]; rfl)).trans crashed

theorem inLoop_before (stepped : session.step strip action = some next)
    (still : next.phase.inLoop = true) : session.phase.inLoop = true := by
  cases sessionStep_of_step stepped with
  | acted acted =>
      cases actorStep_of_actor acted with
      | moved within => exact within
      | retried => exact still
      | took listening => rw [listening]; rfl
      | chunked listening => rw [listening]; rfl
      | offered enqueuing => rw [enqueuing]; rfl
      | forwarded forwarding => rw [forwarding]; rfl
      | _ => cases still
  | _ => exact still

/-- What holds of a session that is treated properly, and of the times it was touched. -/
structure Dated (born : Nat) (session : Session) (touched : List Nat) : Prop where
  watched : session.Watched
  sound : session.Sound
  listens : session.Listens
  active : session.phase.inLoop = true → session.lastActivity = asI64 (touched.getLastD born)

theorem dated_spawn {peer : ValidatedPeer} {limits : LimitsConfig} {chunking : ChunkingConfig}
    {inSize outSize unixSecs : Nat}
    (created : spawn peer limits chunking (Pty.spawn inSize outSize) unixSecs = some session) :
    session.Dated unixSecs [] where
  watched := watched_spawn created
  sound := sound_spawn (Pty.sound_spawn inSize outSize) created
  listens := by
    have flowing : session.Flowing id chunking := flowing_spawn created
    exact flowing.listens
  active _ := by
    obtain ⟨input, -, rfl⟩ := Option.map_eq_some_iff.mp created
    simp only [List.getLastD_nil]

theorem Dated.step {born : Nat} {touched : List Nat} (dated : Dated born session touched)
    (proper : session.Proper action) (stepped : session.step strip action = some next) :
    Dated born next (touched ++ session.touches action) where
  watched := dated.watched.step proper stepped
  sound := dated.sound.step stepped
  listens := dated.listens.step stepped
  active := by
    intro still
    obtain ⟨nothing, same⟩ | ⟨instant, only, now⟩ := touched_of_step stepped still
    · rw [nothing, List.append_nil, same]
      exact dated.active (inLoop_before stepped still)
    · rw [only, List.getLastD_concat]
      exact now

/-- In every run of a session that is treated properly, the reason it ends with is true of the session
as it was when it left its loop. -/
theorem reason_true {peer : ValidatedPeer} {limits : LimitsConfig} {chunking : ChunkingConfig}
    {inSize outSize unixSecs : Nat} {start : Session} {own : List SessionAction}
    (created : spawn peer limits chunking (Pty.spawn inSize outSize) unixSecs = some start)
    (ran : run (Session.step strip) start own = some session)
    (proper : AllSteps (Session.step strip) Proper start own)
    (ended : session.phase.reason = some reason) :
    ∃ before wake after leaving, own = before ++ .actor wake :: after ∧
      run (Session.step strip) start before = some leaving ∧ leaving.phase.inLoop = true ∧
        leaving.Justifies ((observe (Session.step strip) touches start before).getLastD unixSecs) wake
          reason := by
  have starting : start.phase.inLoop = true := by rw [(fresh_of_spawn created).phase]; rfl
  have out : ¬ session.phase.inLoop = true := by
    intro within
    rw [ActorPhase.reason_of_inLoop within] at ended
    cases ended
  obtain ⟨before, action, after, leaving, left, own_eq, ran_before, within, stepped, gone, ran_after⟩ :=
    @exists_exit _ _ _ _ _ (fun session : Session => session.phase.inLoop = true) _ ran starting out
  obtain ⟨wake, rfl, acted⟩ : ∃ wake, action = .actor wake ∧ leaving.actor strip wake = some left := by
    cases sessionStep_of_step stepped with
    | acted acted => exact ⟨_, rfl, acted⟩
    | _ => exact (gone within).elim
  have left_reason : left.phase.reason = some reason := by
    cases found : left.phase.reason with
    | none =>
        have crashed := @invariant_of_run _ _ _ _ _ (fun session : Session => session.phase = .crashed)
          (fun _ _ _ crashed stepped => crashed_of_step crashed stepped) _ ran_after
          (ActorPhase.crashed_of_no_reason gone found)
        rw [crashed] at ended
        cases ended
    | some told =>
        have kept := @invariant_of_run _ _ _ _ _
          (fun session : Session => session.phase.reason = some told)
          (fun _ _ _ kept stepped => reason_of_step kept stepped) _ ran_after found
        rw [← kept, ended]
  have dated := @invariant_of_observed _ _ _ _ _ _ touches (Dated unixSecs) Proper
    (fun _ _ _ _ dated proper stepped => dated.step proper stepped) _ ran_before
    (own_eq ▸ proper).of_append (dated_spawn created)
  exact ⟨before, wake, after, leaving, own_eq, ran_before, within,
    (left_of_actor within acted left_reason).justifies dated.watched dated.sound dated.listens within
      (dated.active within)⟩

end Session

/-! ## In a run of the process -/

namespace Process

variable {strip : List UInt8 → List UInt8} {reader : JsonReader}
  {parseToml : Text → Except Text WhitelistFile} {path : Text}

/-- The reason every session of the process ends with is true: of the session as it was when it left
its loop, and `shutdown` of the process, which has left its own. -/
theorem reasons_true {limits : LimitsConfig} {chunking : ChunkingConfig} {whitelist : Whitelist}
    {logged : Bool} {file : Except Text Text} {actions : List ProcessAction} {process : Process}
    (ran : run (step strip reader parseToml path) (new limits chunking whitelist logged file)
      actions = some process) :
    ∀ session ∈ process.daemon.sessions, ∀ reason, session.phase.reason = some reason →
      (reason = .shutdown → process.daemon.Closed) ∧
        ∃ unixSecs start before wake after leaving,
          session.Grown strip limits chunking unixSecs start (before ++ .actor wake :: after) ∧
            run (Session.step strip) start before = some leaving ∧ leaving.phase.inLoop = true ∧
              leaving.Justifies ((observe (Session.step strip) Session.touches start before).getLastD
                unixSecs) wake reason := by
  intro session member reason ended
  obtain ⟨schedule, waiting, mirrors⟩ := mirrors_of_run ran
  obtain ⟨unixSecs, start, own, grown⟩ := Daemon.grown_of_run mirrors.ran session member
  obtain ⟨peer, terminal, created⟩ := grown.created
  obtain ⟨before, wake, after, leaving, rfl, ran_before, within, justified⟩ :=
    Session.reason_true created grown.ran grown.proper ended
  refine ⟨?_, unixSecs, start, before, wake, after, leaving, grown, ran_before, within, justified⟩
  rintro rfl
  have said : session.shutdown = .sent .shutdown := by
    obtain ⟨middle, middle_ran, rest⟩ := run_append_eq_some.mp grown.ran
    obtain rfl : leaving = middle := by simpa [ran_before] using middle_ran
    exact @invariant_of_run _ _ _ _ _ (fun session : Session => session.shutdown = .sent .shutdown)
      (fun _ _ _ said stepped => Session.sent_of_step stepped said) _ rest justified
  obtain other | ⟨-, closed⟩ := (Daemon.toldInTime_of_run mirrors.ran).reasons session member _ said
  · cases other
  · exact closed

/-- A session whose child exits ends because of that. -/
theorem reasons_true_sample :
    ∃ process session, run (step id Daemon.sampleReader (fun _ => .error []) [])
        (new .default .default Daemon.sampleWhitelist false (.ok []))
        [.stream .check, .stream (.respond (.status 200) 0), .stream .pollShutdown,
          .stream (.pollEvents (.frame { name := [], id := [], data := Daemon.sampleData }) 0),
          .stream .hand, .pollSignals, .pollEvents (some { inSize := 4096, outSize := 4096 }) 0,
          .session 0 (.pty .childExit), .session 0 (.pty .readerEnds),
          .session 0 (.actor (.plain 0 0)), .session 0 (.actor (.plain 0 0)),
          .session 0 (.actor (.plain 0 0))] = some process ∧
      session ∈ process.daemon.sessions ∧ session.phase.reason = some .ptyEof ∧
        ∃ unixSecs start before wake after leaving,
          session.Grown id .default .default unixSecs start (before ++ .actor wake :: after) ∧
            run (Session.step id) start before = some leaving ∧ leaving.phase.inLoop = true ∧
              leaving.Justifies ((observe (Session.step id) Session.touches start before).getLastD
                unixSecs) wake .ptyEof := by
  have completes : ((run (step id Daemon.sampleReader (fun _ => .error []) [])
      (new .default .default Daemon.sampleWhitelist false (.ok []))
      [.stream .check, .stream (.respond (.status 200) 0), .stream .pollShutdown,
        .stream (.pollEvents (.frame { name := [], id := [], data := Daemon.sampleData }) 0),
        .stream .hand, .pollSignals, .pollEvents (some { inSize := 4096, outSize := 4096 }) 0,
        .session 0 (.pty .childExit), .session 0 (.pty .readerEnds),
        .session 0 (.actor (.plain 0 0)), .session 0 (.actor (.plain 0 0)),
        .session 0 (.actor (.plain 0 0))]).map
        fun process => process.daemon.sessions.map fun session => session.phase.reason) =
      some [some .ptyEof] := by
    decide +kernel
  obtain ⟨process, ran, reasons⟩ := Option.map_eq_some_iff.mp completes
  obtain ⟨session, sessions_eq, ended⟩ := List.map_eq_singleton_iff.mp reasons
  have member : session ∈ process.daemon.sessions := by
    rw [sessions_eq]
    exact List.mem_singleton_self session
  exact ⟨process, session, ran, member, ended, (reasons_true ran session member .ptyEof ended).2⟩

end Process

end Loraterm
