import Loraterm.ChunkerCalls
import Loraterm.PeerOrder

/-!
# From the shell to the messages

A session's chunker goes through one sequence of calls whose pushes are the bytes the child wrote,
from the first on.  The chunks those calls return are offered to the outbound queue in their order,
each once, and after them the farewell; what the queue accepts is handed over in that order.
-/

namespace Loraterm

open Utf8Text Mpsc WatchChannel Execution

/-- The message an event offers to the queue, markers apart. -/
def QueueEvent.offered : QueueEvent → Option Text
  | .queued chunk => some chunk
  | .dropped chunk => some chunk
  | _ => none

/-- The messages offered to the queue so far, markers apart. -/
def Outbound.offered (outbound : Outbound) : List Text :=
  outbound.history.filterMap QueueEvent.offered

/-- The messages in the actor's hand. -/
def ActorPhase.toOffer : ActorPhase → List Text
  | .enqueuing chunks => chunks
  | .flushing _ messages => messages
  | _ => []

/-- The farewell of a session that left its loop. -/
def ActorPhase.farewells : ActorPhase → List Text
  | .flushing reason _ | .joining reason | .reaping reason | .returned reason => [farewell reason]
  | _ => []

/-- A call of the chunker, with the chunks returned so far. -/
def produce (strip : List UInt8 → List UInt8) (state : Chunker × List Text) (call : ChunkerCall) :
    Option (Chunker × List Text) :=
  (state.1.call strip call).map fun returned => (returned.1, state.2 ++ returned.2)

namespace Session

variable {strip : List UInt8 → List UInt8}

/-- What a step of the actor does to the output. -/
inductive OutputStep (strip : List UInt8 → List UInt8) (session next : Session) : Prop
  | moved (within : session.phase.inLoop = true) (before : session.phase.toOffer = [])
      (still : next.phase.inLoop = true) (after : next.phase.toOffer = [])
      (chunker : next.chunker = session.chunker) (output : next.pty.output = session.pty.output)
      (outbound : next.outbound = session.outbound)
  | crashed (within : session.phase.inLoop = true) (before : session.phase.toOffer = [])
      (phase : next.phase = .crashed) (chunker : next.chunker = session.chunker)
      (taken : session.pty.output.taken <+: next.pty.output.taken)
      (accepted : next.pty.output.accepted = session.pty.output.accepted)
      (receiving : next.pty.output.receiving = false)
      (sending : next.pty.output.sending = session.pty.output.sending)
      (history : next.outbound.history = session.outbound.history)
  | cut (call : ChunkerCall) {chunks : List Text} (within : session.phase.inLoop = true)
      (before : session.phase.toOffer = [])
      (returned : session.chunker.call strip call = some (next.chunker, chunks))
      (taken : next.pty.output.taken.flatten = session.pty.output.taken.flatten ++ call.pushed)
      (accepted : next.pty.output.accepted = session.pty.output.accepted)
      (receiving : next.pty.output.receiving = session.pty.output.receiving)
      (sending : next.pty.output.sending = session.pty.output.sending)
      (outbound : next.outbound = session.outbound)
      (phase : next.phase = .enqueuing chunks ∨
        ∃ reason, next.phase = .flushing reason (chunks ++ [farewell reason]))
  | offered {chunk : Text} {rest : List Text} (before : session.phase = .enqueuing (chunk :: rest))
      (after : next.phase = .enqueuing rest) (offer : session.outbound.offer chunk = some next.outbound)
      (chunker : next.chunker = session.chunker) (output : next.pty.output = session.pty.output)
  | retried (same : next.phase = session.phase) (retry : session.outbound.retry = some next.outbound)
      (chunker : next.chunker = session.chunker) (output : next.pty.output = session.pty.output)
  | wound (left : session.phase.inLoop = false) (still : next.phase.inLoop = false)
      (chunker : next.chunker = session.chunker)
      (taken : next.pty.output.taken = session.pty.output.taken)
      (accepted : next.pty.output.accepted = session.pty.output.accepted)
      (receiving : next.pty.output.receiving = true → session.pty.output.receiving = true)
      (sending : next.pty.output.sending = session.pty.output.sending)
      (alive : session.phase ≠ .crashed) (farewells : next.phase.farewells = session.phase.farewells)
      (sublist : (next.outbound.offered ++ next.phase.toOffer).Sublist
        (session.outbound.offered ++ session.phase.toOffer))

theorem OutputStep.leaveLoop {session : Session} (within : session.phase.inLoop = true)
    (before : session.phase.toOffer = []) (reason : Reason) :
    OutputStep strip session (session.leaveLoop strip reason) := by
  rw [Session.leaveLoop]
  cases flushed : session.chunker.flushForce strip with
  | none =>
      exact .crashed within before rfl rfl List.prefix_rfl (Channel.accepted_dropReceiver _) rfl rfl rfl
  | some pair =>
      refine .cut .flushForce within before ?_ ?_ rfl rfl rfl rfl (.inr ⟨reason, rfl⟩)
      · exact flushed
      · exact (List.append_nil _).symm

theorem OutputStep.pollShutdown {session : Session} (selecting : session.phase = .selecting) :
    OutputStep strip session (session.pollShutdown strip) := by
  have within : session.phase.inLoop = true := by rw [selecting]; rfl
  have before : session.phase.toOffer = [] := by rw [selecting]; rfl
  simp only [Session.pollShutdown]
  split
  · exact .crashed within before rfl rfl List.prefix_rfl (Channel.accepted_dropReceiver _) rfl rfl rfl
  · split
    · exact .moved within before rfl rfl rfl rfl rfl
    · exact .leaveLoop within before _
    · exact .leaveLoop within before _

theorem OutputStep.pollArms {session : Session} (wake : Wake)
    (listening : session.phase = .listening) :
    OutputStep strip session (session.pollArms strip wake) := by
  have within : session.phase.inLoop = true := by rw [listening]; rfl
  have before : session.phase.toOffer = [] := by rw [listening]; rfl
  simp only [Session.pollArms]
  split
  · split
    · exact .leaveLoop within before _
    · exact .moved within before rfl rfl rfl rfl rfl
  · split
    · cases flushed : session.chunker.maybeFlush strip wake.instant with
      | none =>
          exact .crashed within before rfl rfl List.prefix_rfl (Channel.accepted_dropReceiver _) rfl rfl rfl
      | some pair =>
          exact .cut (.maybeFlush wake.instant) within before flushed (List.append_nil _).symm rfl rfl
            rfl rfl (.inl rfl)
    · split
      · exact .moved within before rfl rfl rfl rfl rfl
      · split
        · exact .leaveLoop within before _
        · split
          · rename_i bytes output received
            obtain ⟨-, -, taken_eq, -, sending, receiving⟩ := Channel.recv_eq_some received
            cases pushed : session.chunker.push strip bytes wake.instant with
            | none =>
                have longer : session.pty.output.taken <+: output.taken := ⟨[bytes], taken_eq.symm⟩
                exact .crashed within before rfl rfl longer
                  ((Channel.accepted_dropReceiver _).trans (Channel.accepted_recv received)) rfl
                  sending rfl
            | some pair =>
                refine .cut (.push bytes wake.instant) within before pushed ?_
                  (Channel.accepted_recv received) receiving sending rfl (.inl rfl)
                simp [taken_eq, ChunkerCall.pushed]
          · split
            · exact .leaveLoop within before _
            · exact .moved within before rfl rfl rfl rfl rfl

theorem offered_of_sendLast {outbound next : Outbound} {message : Text}
    (stepped : outbound.sendLast message = some next) :
    next.offered.Sublist (outbound.offered ++ [message]) := by
  obtain ⟨-, ⟨queue, -, rfl⟩ | ⟨refusal, -, rfl⟩⟩ := Outbound.sendLast_cases stepped
  · simp [Outbound.offered, QueueEvent.offered]
  · exact List.sublist_append_left _ _

theorem outputStep_of_actor {session next : Session} {wake : Wake}
    (stepped : session.actor strip wake = some next) : OutputStep strip session next := by
  simp only [actor] at stepped
  split at stepped
  · rename_i starting
    obtain rfl := Option.some.inj stepped
    have within : session.phase.inLoop = true := by rw [starting]; rfl
    have before : session.phase.toOffer = [] := by rw [starting]; rfl
    rw [start]
    split
    · exact .crashed within before rfl rfl List.prefix_rfl (Channel.accepted_dropReceiver _) rfl rfl rfl
    · exact .moved within before rfl rfl rfl rfl rfl
  · rename_i selecting
    obtain rfl := Option.some.inj stepped
    exact .pollShutdown selecting
  · rename_i listening
    obtain rfl := Option.some.inj stepped
    exact .pollArms wake listening
  · rename_i chunks enqueuing
    simp only [Session.enqueueNext] at stepped
    split at stepped
    · obtain ⟨outbound, retry, rfl⟩ := Option.map_eq_some_iff.mp stepped
      exact .retried rfl retry rfl rfl
    · split at stepped
      · obtain rfl := Option.some.inj stepped
        exact .moved (by rw [enqueuing]; rfl) (by rw [enqueuing]; rfl) rfl rfl rfl rfl rfl
      · obtain ⟨outbound, offer, rfl⟩ := Option.map_eq_some_iff.mp stepped
        exact .offered enqueuing rfl offer rfl rfl
  · rename_i payload forwarding
    have within : session.phase.inLoop = true := by rw [forwarding]; rfl
    have before : session.phase.toOffer = [] := by rw [forwarding]; rfl
    simp only [Session.forward] at stepped
    split at stepped
    · obtain rfl := Option.some.inj stepped
      exact .moved within before rfl rfl rfl rfl rfl
    · cases stepped
    · obtain rfl := Option.some.inj stepped
      exact .leaveLoop within before _
  · rename_i reason messages flushing
    cases messages with
    | nil =>
        obtain rfl := Option.some.inj stepped
        exact .wound (by rw [flushing]; rfl) rfl rfl rfl rfl id rfl (by simp [flushing])
          (by rw [flushing]; rfl) (by rw [flushing]; exact List.Sublist.refl _)
    | cons message rest =>
        obtain ⟨outbound, send, rfl⟩ := Option.map_eq_some_iff.mp stepped
        refine .wound (by rw [flushing]; rfl) rfl rfl rfl rfl id rfl (by simp [flushing])
          (by rw [flushing]; rfl) ?_
        have grown := (offered_of_sendLast send).append (List.Sublist.refl rest)
        rw [flushing]
        simpa [ActorPhase.toOffer] using grown
  · rename_i reason joining
    simp only [join] at stepped
    split at stepped
    · obtain rfl := Option.some.inj stepped
      exact .wound (by rw [joining]; rfl) rfl rfl rfl rfl id rfl (by simp [joining])
        (by rw [joining]; rfl) (by rw [joining]; exact List.Sublist.refl _)
    · cases stepped
  · rename_i reason reaping
    obtain rfl := Option.some.inj stepped
    exact .wound (by rw [reaping]; rfl) rfl rfl rfl (Channel.accepted_dropReceiver _)
      (fun listening => (by cases listening)) rfl (by simp [reaping]) (by rw [reaping]; rfl)
      (by rw [reaping]; exact List.Sublist.refl _)
  · cases stepped
  · cases stepped

/-! ## The calls behind the messages -/

/-- The knobs of a session's chunker, with the chunking of the daemon. -/
def opts (session : Session) (chunking : ChunkingConfig) : ChunkerOpts :=
  chunkerOpts session.peer session.limits chunking

/-- The chunker went through some calls, whose pushes are the output taken so far and whose chunks
were offered in order, or are in hand. -/
structure Piped (strip : List UInt8 → List UInt8) (chunking : ChunkingConfig) (session : Session)
    (calls : List ChunkerCall) (chunks : List Text) : Prop where
  produced : run (produce strip) (Chunker.new (session.opts chunking), []) calls =
    some (session.chunker, chunks)
  bytes : session.phase ≠ .crashed → pushedBytes calls = session.pty.output.taken.flatten
  gone : pushedBytes calls <+: session.pty.output.taken.flatten
  within : session.phase.inLoop = true → session.outbound.offered ++ session.phase.toOffer = chunks
  left : (session.outbound.offered ++ session.phase.toOffer).Sublist
    (chunks ++ session.phase.farewells)

variable {chunking : ChunkingConfig} {session next : Session} {action : SessionAction}
  {calls : List ChunkerCall} {chunks : List Text}

theorem piped_spawn {peer : ValidatedPeer} {limits : LimitsConfig} {inSize outSize unixSecs : Nat}
    (created : spawn peer limits chunking (Pty.spawn inSize outSize) unixSecs = some session) :
    session.Piped strip chunking [] [] := by
  obtain ⟨input, -, rfl⟩ := Option.map_eq_some_iff.mp created
  exact ⟨rfl, fun _ => rfl, List.nil_prefix, fun _ => rfl, List.Sublist.refl _⟩

/-- Steps that leave the chunker, the output and the offers alone. -/
theorem Piped.of_same (piped : session.Piped strip chunking calls chunks)
    (chunker : next.chunker = session.chunker) (opts : next.opts chunking = session.opts chunking)
    (taken : next.pty.output.taken = session.pty.output.taken) (phase : next.phase = session.phase)
    (offered : next.outbound.offered = session.outbound.offered) :
    next.Piped strip chunking calls chunks where
  produced := by rw [opts, chunker, piped.produced]
  bytes := by
    rw [phase, taken]
    exact piped.bytes
  gone := by
    rw [taken]
    exact piped.gone
  within := by
    rw [phase, offered]
    exact piped.within
  left := by
    rw [phase, offered]
    exact piped.left

theorem Piped.outputStep (piped : session.Piped strip chunking calls chunks) (sound : session.Sound)
    (opts : next.opts chunking = session.opts chunking)
    (stepped : OutputStep strip session next) :
    ∃ calls' chunks', next.Piped strip chunking calls' chunks' := by
  cases stepped with
  | moved within before still after chunker output outbound =>
      have offers := piped.within within
      rw [before, List.append_nil] at offers
      refine ⟨calls, chunks, by rw [opts, chunker, piped.produced], fun _ => ?_, ?_, fun _ => ?_, ?_⟩
      · rw [output]
        exact piped.bytes (by rintro crashed; rw [crashed] at within; cases within)
      · rw [output]
        exact piped.gone
      · rw [outbound, after, offers, List.append_nil]
      · rw [outbound, after, offers, List.append_nil]
        exact List.sublist_append_left _ _
  | crashed within before phase chunker taken accepted receiving sending history =>
      have offers := piped.within within
      rw [before, List.append_nil] at offers
      have same : next.outbound.offered = chunks := by rw [← offers, Outbound.offered, history]; rfl
      refine ⟨calls, chunks, by rw [opts, chunker, piped.produced], fun alive => (alive phase).elim,
        ?_, ?_, ?_⟩
      · obtain ⟨more, taken_eq⟩ := taken
        rw [← taken_eq, List.flatten_append]
        exact piped.gone.trans (List.prefix_append _ _)
      · rw [phase]
        intro still
        cases still
      · rw [same, phase]
        exact List.Sublist.refl _
  | @cut call cut_chunks within before returned taken accepted receiving sending outbound phase =>
      have offers := piped.within within
      rw [before, List.append_nil] at offers
      have alive : session.phase ≠ .crashed := by
        rintro crashed
        rw [crashed] at within
        cases within
      have pushed : pushedBytes (calls ++ [call]) = next.pty.output.taken.flatten := by
        rw [taken, ← piped.bytes alive]
        simp [pushedBytes]
      refine ⟨calls ++ [call], chunks ++ cut_chunks, ?_, fun _ => pushed, pushed ▸ List.prefix_rfl,
        ?_, ?_⟩
      · rw [opts]
        refine run_concat_eq_some.mpr ⟨_, piped.produced, ?_⟩
        simp [produce, returned]
      · rw [outbound, offers]
        obtain phase | ⟨reason, phase⟩ := phase
        · rw [phase]
          exact fun _ => rfl
        · rw [phase]
          intro still
          cases still
      · rw [outbound, offers]
        obtain phase | ⟨reason, phase⟩ := phase
        · simp [phase, ActorPhase.toOffer, ActorPhase.farewells]
        · simp [phase, ActorPhase.toOffer, ActorPhase.farewells]
  | @offered chunk rest before after offer chunker output =>
      have offers := piped.within (by rw [before]; rfl)
      rw [before] at offers
      have all : next.outbound.offered ++ rest = chunks := by
        rw [← offers]
        obtain ⟨-, ⟨queue, -, next_eq⟩ | ⟨-, next_eq⟩ | ⟨closed, -⟩⟩ := Outbound.offer_cases offer
        · simp [next_eq, Outbound.offered, QueueEvent.offered, ActorPhase.toOffer]
        · simp [next_eq, Outbound.offered, QueueEvent.offered, ActorPhase.toOffer]
        · have gone := Channel.trySend_closed closed
          rw [sound.queue.alive] at gone
          cases gone
      refine ⟨calls, chunks, by rw [opts, chunker, piped.produced], fun _ => ?_, ?_, fun _ => ?_, ?_⟩
      · rw [output]
        exact piped.bytes (by simp [before])
      · rw [output]
        exact piped.gone
      · rw [after]
        exact all
      · rw [after, ← all]
        exact List.sublist_append_left _ _
  | retried same retry chunker output =>
      have offered : next.outbound.offered = session.outbound.offered := by
        obtain ⟨dropped, -, ⟨queue, -, next_eq⟩ | ⟨refusal, -, ⟨-, next_eq⟩ | ⟨-, next_eq⟩⟩⟩ :=
          Outbound.retry_cases retry
        · simp [next_eq, Outbound.offered, QueueEvent.offered]
        · simp [next_eq, Outbound.offered, QueueEvent.offered]
        · simp [next_eq, Outbound.offered]
      exact ⟨calls, chunks, piped.of_same chunker opts (by rw [output]) same offered⟩
  | wound left still chunker taken accepted receiving sending alive farewells sublist =>
      refine ⟨calls, chunks, by rw [opts, chunker, piped.produced], fun _ => ?_, ?_, ?_, ?_⟩
      · rw [taken]
        exact piped.bytes alive
      · rw [taken]
        exact piped.gone
      · rw [still]
        intro within
        cases within
      · rw [farewells]
        exact sublist.trans piped.left

theorem chunkerOpts_of_step (stepped : session.step strip action = some next) :
    next.opts chunking = session.opts chunking := by
  rw [opts, opts, peer_of_step stepped, limits_of_step stepped]

theorem Piped.step (piped : session.Piped strip chunking calls chunks) (sound : session.Sound)
    (stepped : session.step strip action = some next) :
    ∃ calls' chunks', next.Piped strip chunking calls' chunks' := by
  have opts : next.opts chunking = session.opts chunking := chunkerOpts_of_step stepped
  cases sessionStep_of_step stepped with
  | acted acted => exact piped.outputStep sound opts (outputStep_of_actor acted)
  | @received chunk outbound waiting taken =>
      obtain ⟨queue, -, rfl⟩ := Outbound.receive_cases taken
      refine ⟨calls, chunks, piped.of_same rfl opts rfl rfl ?_⟩
      simp [Outbound.offered, QueueEvent.offered]
  | bridged pty_stepped =>
      exact ⟨calls, chunks, piped.of_same rfl opts (Pty.taken_of_step pty_stepped).1 rfl rfl⟩
  | _ => exact ⟨calls, chunks, piped.of_same rfl opts rfl rfl rfl⟩

/-! ## What a session shows -/

theorem OutputStep.channel (stepped : OutputStep strip session next) :
    next.pty.output.accepted = session.pty.output.accepted ∧
      next.pty.output.sending = session.pty.output.sending ∧
        (next.pty.output.receiving = true → session.pty.output.receiving = true) := by
  cases stepped with
  | moved within before still after chunker output outbound =>
      exact ⟨by rw [output], by rw [output], output ▸ id⟩
  | crashed within before phase chunker taken accepted receiving sending history =>
      exact ⟨accepted, sending, by simp [receiving]⟩
  | cut call within before returned taken accepted receiving sending outbound phase =>
      exact ⟨accepted, sending, receiving ▸ id⟩
  | offered before after offer chunker output => exact ⟨by rw [output], by rw [output], output ▸ id⟩
  | retried same retry chunker output => exact ⟨by rw [output], by rw [output], output ▸ id⟩
  | wound left still chunker taken accepted receiving sending alive farewells sublist =>
      exact ⟨accepted, sending, receiving⟩

theorem ActorStep.terminal (stepped : ActorStep strip session next) :
    next.pty.reader = session.pty.reader ∧ next.pty.kernelOut = session.pty.kernelOut ∧
      next.pty.childAlive = session.pty.childAlive := by
  cases stepped <;> exact ⟨rfl, rfl, rfl⟩

/-- An actor in its loop receives what the reader thread sends. -/
def Listens (session : Session) : Prop :=
  session.phase.inLoop = true → session.pty.output.receiving = true

theorem OutputStep.listens (listens : session.Listens) (stepped : OutputStep strip session next) :
    next.Listens := by
  intro still
  cases stepped with
  | moved within before _ after chunker output outbound => exact output ▸ listens within
  | crashed within before phase chunker taken accepted receiving sending history =>
      rw [phase] at still
      cases still
  | cut call within before returned taken accepted receiving sending outbound phase =>
      exact receiving.trans (listens within)
  | offered before after offer chunker output => exact output ▸ listens (by rw [before]; rfl)
  | retried same retry chunker output => exact output ▸ listens (same ▸ still)
  | wound left gone chunker taken accepted receiving sending alive farewells sublist =>
      rw [gone] at still
      cases still

theorem Listens.step (listens : session.Listens) (stepped : session.step strip action = some next) :
    next.Listens := by
  cases sessionStep_of_step stepped with
  | acted acted => exact (outputStep_of_actor acted).listens listens
  | bridged pty_stepped =>
      exact fun within => (Pty.taken_of_step pty_stepped).2.trans (listens within)
  | _ => exact fun within => listens within

/-- What holds of a session in a run of its own. -/
structure Flowing (strip : List UInt8 → List UInt8) (chunking : ChunkingConfig) (session : Session) :
    Prop where
  sound : session.Sound
  typed : session.Typed
  listens : session.Listens
  piped : ∃ calls chunks, session.Piped strip chunking calls chunks

theorem Flowing.step (flowing : session.Flowing strip chunking)
    (stepped : session.step strip action = some next) : next.Flowing strip chunking where
  sound := flowing.sound.step stepped
  typed := flowing.typed.step stepped
  listens := flowing.listens.step stepped
  piped := by
    obtain ⟨calls, chunks, piped⟩ := flowing.piped
    exact piped.step flowing.sound stepped

theorem flowing_spawn {peer : ValidatedPeer} {limits : LimitsConfig} {inSize outSize unixSecs : Nat}
    (created : spawn peer limits chunking (Pty.spawn inSize outSize) unixSecs = some session) :
    session.Flowing strip chunking where
  sound := sound_spawn (Pty.sound_spawn inSize outSize) created
  typed := typed_spawn created
  listens := by
    intro _
    rw [(fresh_of_spawn created).pty]
    rfl
  piped := ⟨[], [], piped_spawn created⟩

end Session

/-! ## In a run of the process -/

/-- How the daemon treats a session: it gives one of two reasons, and drops the handle without one only
when the session is over. -/
def Session.Proper (session : Session) : SessionAction → Prop
  | .dismiss reason => reason = .revoked ∨ reason = .shutdown
  | .forget => session.input.receiving = false
  | _ => True

/-- A session went through a run of its own since it was spawned, treated properly. -/
structure Session.Grown (strip : List UInt8 → List UInt8) (limits : LimitsConfig)
    (chunking : ChunkingConfig) (unixSecs : Nat) (session start : Session)
    (own : List SessionAction) : Prop where
  created : ∃ peer, ∃ terminal : Terminal, Session.spawn peer limits chunking
    (Pty.spawn terminal.inSize terminal.outSize) unixSecs = some start
  ran : run (Session.step strip) start own = some session
  proper : AllSteps (Session.step strip) Session.Proper start own

namespace Daemon

variable {strip : List UInt8 → List UInt8} {reader : JsonReader} {daemon next : Daemon}
  {action : DaemonAction}

theorem proper_of_causes {index : Nat} {session : Session} {act : SessionAction}
    (at_index : daemon.sessions[index]? = some session) (caused : daemon.Causes action index act) :
    session.Proper act := by
  cases act with
  | dismiss reason =>
      obtain ⟨-, revoked | ⟨shutdown, -⟩⟩ := caused
      · exact .inl revoked
      · exact .inr shutdown
  | forget =>
      obtain ⟨found, found_at, closed⟩ := caused
      obtain rfl : session = found := by simpa [at_index] using found_at
      exact closed
  | _ => trivial

/-- Every session of the daemon went through a run of its own. -/
theorem grown_of_run {limits : LimitsConfig} {chunking : ChunkingConfig} {whitelist : Whitelist}
    {schedule : List DaemonAction}
    (ran : run (step strip reader) (new limits chunking whitelist) schedule = some daemon) :
    ∀ session ∈ daemon.sessions, ∃ unixSecs start own,
      session.Grown strip limits chunking unixSecs start own := by
  have holds := @invariant_of_run _ _ _ _ _
    (fun daemon : Daemon => (daemon.limits = limits ∧ daemon.chunking = chunking) ∧
      ∀ session ∈ daemon.sessions, ∃ unixSecs start own,
        session.Grown strip limits chunking unixSecs start own) ?_ _ ran
    ⟨⟨rfl, rfl⟩, by simp [new]⟩
  · exact holds.2
  · rintro before action after ⟨⟨rfl, rfl⟩, sessions⟩ stepped
    have stepped := daemonStep_of_step stepped
    refine ⟨configuration_of_step stepped, fun now member => ?_⟩
    obtain ⟨index, now_at⟩ := List.mem_iff_getElem?.mp member
    obtain ⟨session, at_index, rfl | ⟨act, session_stepped, caused⟩⟩ |
        ⟨-, peer, terminal, unixSecs, created⟩ := session_of_step stepped now_at
    · exact sessions now (List.mem_of_getElem? at_index)
    · obtain ⟨unixSecs, start, own, grown⟩ := sessions session (List.mem_of_getElem? at_index)
      exact ⟨unixSecs, start, own ++ [act], grown.created,
        run_concat_eq_some.mpr ⟨session, grown.ran, session_stepped⟩,
        grown.proper.concat grown.ran (proper_of_causes at_index caused)⟩
    · exact ⟨unixSecs, now, [], ⟨peer, terminal, created⟩, rfl, trivial⟩

end Daemon

namespace Process

variable {strip : List UInt8 → List UInt8} {reader : JsonReader}
  {parseToml : Text → Except Text WhitelistFile} {path : Text}

end Process

end Loraterm
