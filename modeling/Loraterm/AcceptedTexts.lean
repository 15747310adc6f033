import Loraterm.InputOrder
import Loraterm.LiveHandles
import Loraterm.TrustBoundary

/-!
# Accepted texts

A handle counts as alive until its actor's task has ended, so a text can be accepted by a session
that has left its loop and will never read it.  All accepted texts reach a PTY input, in order and
once, in the runs where neither that happens nor a loop ends with texts waiting.
-/

namespace Loraterm

open Utf8Text Mpsc Execution

theorem Session.delivers_spawn {peer : ValidatedPeer} {limits : LimitsConfig}
    {chunking : ChunkingConfig} {terminal : Terminal} {unixSecs : Nat} {session : Session}
    (created : spawn peer limits chunking (Pty.spawn terminal.inSize terminal.outSize) unixSecs =
      some session) : session.Delivers := by
  have fresh := fresh_of_spawn created
  refine ⟨?_, fun _ => by rw [fresh.input]; rfl⟩
  rw [fresh.input, fresh.pty, fresh.phase]
  rfl

namespace Daemon

/-- Every session that was not told to shut down delivers the texts it accepted. -/
def TextsDelivered (daemon : Daemon) : Prop :=
  ∀ session ∈ daemon.sessions, session.Untold → session.Delivers

/-- What a step does to a session that was not told to shut down is careful. -/
def Careful (strip : List UInt8 → List UInt8) (daemon : Daemon) (action : DaemonAction) : Prop :=
  ∀ (index : Nat) (session : Session) (act : SessionAction),
    daemon.sessions[index]? = some session → session.Untold → daemon.Causes action index act →
      session.Careful strip act

variable {strip : List UInt8 → List UInt8} {reader : JsonReader}

theorem textsDelivered_of_careful {daemon next : Daemon} {action : DaemonAction}
    (tended : daemon.Tended) (delivered : daemon.TextsDelivered)
    (careful : daemon.Careful strip action)
    (stepped : DaemonStep strip reader daemon action next) : next.TextsDelivered := by
  intro now member untold
  obtain ⟨index, now_at⟩ := List.mem_iff_getElem?.mp member
  obtain ⟨session, at_index, same | ⟨act, session_stepped, caused⟩⟩ | ⟨-, peer, terminal, _, new⟩ :=
    session_of_step stepped now_at
  · obtain rfl := same
    exact delivered now (List.mem_of_getElem? at_index) untold
  · have before := List.mem_of_getElem? at_index
    have still_untold := Session.untold_of_step session_stepped untold
    have waiting : session.phase.inLoop = true → session.shutdown = .waiting := fun within =>
      tended.waiting before still_untold (ActorPhase.not_over_of_inLoop within)
    exact (delivered session before still_untold).step (tended.sound session before) waiting
      (careful index session act at_index still_untold caused) session_stepped
  · exact Session.delivers_spawn new

/-- What a step causes in a session is what happens to it. -/
theorem getElem?_of_causes {daemon next : Daemon} {action : DaemonAction} {index : Nat}
    {session : Session} {act : SessionAction}
    (stepped : daemon.step strip reader action = some next)
    (at_index : daemon.sessions[index]? = some session) (caused : daemon.Causes action index act)
    (sends_or_owns : (∃ line unixSecs, act = .deliver line unixSecs) ∨ act.own = true) :
    ∃ now, next.sessions[index]? = some now ∧ session.step strip act = some now := by
  obtain ⟨line, unixSecs, rfl⟩ | own := sends_or_owns
  · obtain ⟨rfl, key, dispatching, addressed⟩ := caused
    simp only [step, dispatching] at stepped
    obtain rfl := Option.some.inj stepped
    refine ⟨session.deliver line unixSecs, ?_, rfl⟩
    simp only [send]
    split
    · rename_i missing
      rw [missing] at addressed
      cases addressed
    · rename_i number registered
      rw [registered] at addressed
      obtain rfl := Option.some.inj addressed
      simp [at_index]
  · have action_eq : action = .session index act := by
      cases act <;> first | exact caused | cases own
    obtain rfl := action_eq
    simp only [step] at stepped
    split at stepped
    · rw [at_index, Option.bind_some] at stepped
      obtain ⟨now, session_stepped, rfl⟩ := Option.map_eq_some_iff.mp stepped
      obtain ⟨inside, -⟩ := List.getElem?_eq_some_iff.mp at_index
      exact ⟨now, List.getElem?_set_self inside, session_stepped⟩
    · cases stepped

theorem careful_of_textsDelivered {daemon next : Daemon} {action : DaemonAction}
    (tended : daemon.Tended) (delivered : daemon.TextsDelivered) (still : next.TextsDelivered)
    (stepped : daemon.step strip reader action = some next) : daemon.Careful strip action := by
  intro index session act at_index untold caused
  have before := List.mem_of_getElem? at_index
  have careful_if : (∃ line unixSecs, act = .deliver line unixSecs) ∨ act.own = true →
      session.Careful strip act := by
    intro sends_or_owns
    obtain ⟨now, now_at, session_stepped⟩ :=
      getElem?_of_causes stepped at_index caused sends_or_owns
    have shutdown_eq : now.shutdown = session.shutdown := by
      obtain ⟨line, unixSecs, rfl⟩ | own := sends_or_owns
      · obtain rfl := Option.some.inj session_stepped
        exact session.shutdown_deliver line unixSecs
      · exact Session.shutdown_of_own session_stepped own
    have now_untold : now.Untold := by
      rw [Session.Untold, shutdown_eq]
      exact untold
    exact Session.careful_of_delivers (delivered session before untold)
      (tended.sound session before) (still now (List.mem_of_getElem? now_at) now_untold)
      session_stepped
  cases act with
  | deliver line unixSecs => exact careful_if (.inl ⟨line, unixSecs, rfl⟩)
  | actor wake => exact careful_if (.inr rfl)
  | _ => trivial

/-- In every run, as long as nobody tells a session to shut down: the texts it accepted are sent to
its PTY input in order and once, none waits once its loop is left, and no other session of the
peer starts before it is over, all exactly when every step is careful; and what still waits in
the loop of a healthy session can be sent. -/
theorem accepted_texts_delivered_iff {limits : LimitsConfig} {chunking : ChunkingConfig}
    {whitelist : Whitelist} {schedule : List DaemonAction} {daemon : Daemon}
    (ran : run (step strip reader) (new limits chunking whitelist) schedule = some daemon) :
    (AllStates (step strip reader) TextsDelivered (new limits chunking whitelist) schedule ↔
        AllSteps (step strip reader) (Careful strip) (new limits chunking whitelist) schedule) ∧
      (∀ (first second : Nat) (one other : Session), first < second →
        daemon.sessions[first]? = some one → daemon.sessions[second]? = some other →
          one.peer.pubkey = other.peer.pubkey → one.Untold → one.phase.isOver = true) ∧
        (AllSteps (step strip reader) (Careful strip) (new limits chunking whitelist) schedule →
          ∀ session ∈ daemon.sessions, session.Untold → session.Healthy →
            ∃ final, Leads (Session.step strip) (fun action => action.own = true) session final ∧
              final.pty.input.accepted = session.input.accepted.map encodePtyInput) := by
  have tended := tended_of_run ran
  have delivered_new : (new limits chunking whitelist).TextsDelivered := by
    simp [TextsDelivered, new]
  have delivered_iff := allStates_iff_allSteps
    (fun _ _ _ tended stepped => Tended.step tended (daemonStep_of_step stepped))
    (fun _ _ _ tended delivered careful stepped =>
      textsDelivered_of_careful tended delivered careful (daemonStep_of_step stepped))
    (fun _ _ _ tended delivered still stepped =>
      careful_of_textsDelivered tended delivered still stepped)
    ran (tended_new limits chunking whitelist) delivered_new
  refine ⟨delivered_iff, tended.replaced, fun careful session member untold healthy => ?_⟩
  have delivered : daemon.TextsDelivered := (delivered_iff.mpr careful).last ran
  exact Session.accepted_sent_of_healthy (delivered session member untold) healthy
    (tended.sound session member)

/-- The first message of a peer, up to its payload in hand. -/
theorem accepted_text_delivered_sample :
    AllStates (step id sampleReader) TextsDelivered sample
        [sampleFrame, .send 0, .session 0 (.actor (.plain 0 0)), .session 0 (.actor (.plain 0 0)),
          .session 0 (.actor (.plain 0 0))] ↔
      AllSteps (step id sampleReader) (Careful id) sample
        [sampleFrame, .send 0, .session 0 (.actor (.plain 0 0)), .session 0 (.actor (.plain 0 0)),
          .session 0 (.actor (.plain 0 0))] := by
  have completes : (run (step id sampleReader) sample
      [sampleFrame, .send 0, .session 0 (.actor (.plain 0 0)), .session 0 (.actor (.plain 0 0)),
        .session 0 (.actor (.plain 0 0))]).isSome = true := by decide +kernel
  obtain ⟨daemon, ran⟩ := Option.isSome_iff_exists.mp completes
  exact (accepted_texts_delivered_iff ran).1

/-- The shell exits, and while the session hands over its farewell a second message is accepted and
discarded, though the PTY input channel is open. -/
theorem accepted_text_can_be_lost :
    ¬ ∀ strip reader limits chunking whitelist schedule daemon,
      run (step strip reader) (new limits chunking whitelist) schedule = some daemon →
        ∀ session ∈ daemon.sessions, session.Untold → session.phase.isOver = true →
          session.pty.input.receiving = true →
            session.pty.input.accepted = session.input.accepted.map encodePtyInput := by
  intro delivered
  let act : DaemonAction := .session 0 (.actor (.plain 0 0))
  have outcome : (run (step id sampleReader) sample
      [sampleFrame, .send 0, act, act, act, act,
        .session 0 (.pty .childExit), .session 0 (.pty .readerEnds), act, act,
        sampleFrame, .send 0, act, act,
        .session 0 .senderReceive, .session 0 .senderSend, .session 0 .senderReceive,
        act, act]).map (fun daemon => daemon.sessions.map fun session =>
          (session.shutdown, session.phase, session.pty.input.receiving,
            session.pty.input.accepted.length, session.input.accepted.length)) =
      some [(.waiting, .returned .ptyEof, true, 1, 2)] := by decide +kernel
  obtain ⟨daemon, ran, sessions_eq⟩ := Option.map_eq_some_iff.mp outcome
  obtain ⟨session, others, listed, session_eq, -⟩ := List.map_eq_cons_iff.mp sessions_eq
  simp only [Prod.mk.injEq] at session_eq
  obtain ⟨waiting, returned, receiving, sent, accepted⟩ := session_eq
  have all_sent := delivered id sampleReader .default .default sampleWhitelist _ daemon ran session
    (by simp [listed]) (by simp [Session.Untold, waiting]) (by rw [returned]; rfl) receiving
  have lengths := congrArg List.length all_sent
  rw [List.length_map, sent, accepted] at lengths
  cases lengths

end Daemon

end Loraterm
