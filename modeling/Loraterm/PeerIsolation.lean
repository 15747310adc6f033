import Loraterm.PeerOrder

/-!
# Peers apart

What the sessions of one peer go through does not depend on the other peers.  Take the messages and
the sessions of all other peers out of a run of the daemon: what is left is a run of the daemon, with
the same reloads, in which the peer's sessions are in the same states.
-/

namespace Loraterm

open Utf8Text Mpsc WatchChannel Execution ListUpdate

/-- Whether a session is of the peer of a key. -/
def Session.isOf (key : Text) (session : Session) : Bool := session.peer.pubkey = key

/-- The phase as it is without the texts of other peers. -/
def DaemonPhase.seenBy (key : Text) : DaemonPhase → DaemonPhase
  | .dispatching addressee text =>
      if addressee = key then .dispatching addressee text else .running
  | phase => phase

/-- Whether an action of the main task is about no message in particular. -/
def DaemonAction.isCommand : DaemonAction → Bool
  | .reload _ | .stop | .finish => true
  | _ => false

namespace Session

variable {key : Text}

theorem isOf_of_peer {session next : Session} (same : next.peer = session.peer) :
    next.isOf key = session.isOf key :=
  congrArg (fun peer : ValidatedPeer => decide (peer.pubkey = key)) same

theorem isOf_deliver (line : Text) (unixSecs : Nat) (session : Session) :
    (session.deliver line unixSecs).isOf key = session.isOf key := by
  rw [deliver]
  split <;> exact isOf_of_peer rfl

end Session

namespace Daemon

/-- A daemon that has the handle and the sessions of one peer only. -/
structure Apart (key : Text) (daemon lone : Daemon) : Prop where
  limits : lone.limits = daemon.limits
  chunking : lone.chunking = daemon.chunking
  whitelist : lone.whitelist = daemon.whitelist
  streaming : lone.streaming = true
  sessions : lone.sessions = daemon.sessions.filter (Session.isOf key)
  handle : lone.peers.lookup key =
    (daemon.peers.lookup key).map (rank (Session.isOf key) daemon.sessions)
  others : ∀ other, other ≠ key → lone.peers.lookup other = none
  phase : daemon.phase ≠ .panicked → lone.phase = daemon.phase.seenBy key

variable {strip : List UInt8 → List UInt8} {reader : JsonReader} {daemon lone next : Daemon}
  {action : DaemonAction} {key owner : Text} {index : Nat}

theorem apart_new (limits : LimitsConfig) (chunking : ChunkingConfig) (whitelist : Whitelist)
    (key : Text) : Apart key (new limits chunking whitelist) (new limits chunking whitelist) :=
  ⟨rfl, rfl, rfl, rfl, rfl, rfl, fun _ _ => rfl, fun _ => rfl⟩

/-! ## Handles and sessions -/

/-- The session of the peer's handle is found at its rank. -/
theorem Apart.registered (apart : Apart key daemon lone) (holds : daemon.Registered)
    (registered : daemon.peers.lookup key = some index) :
    ∃ session, daemon.sessions[index]? = some session ∧ session.isOf key = true ∧
      lone.peers.lookup key = some (rank (Session.isOf key) daemon.sessions index) ∧
        lone.sessions[rank (Session.isOf key) daemon.sessions index]? = some session := by
  obtain ⟨session, at_index, key_eq⟩ := holds key index registered
  have own : session.isOf key = true := decide_eq_true key_eq
  refine ⟨session, at_index, own, by rw [apart.handle, registered]; rfl, ?_⟩
  rw [apart.sessions]
  exact getElem?_rank at_index own

theorem Apart.change_own (change : Session → Session) (apart : Apart key daemon lone)
    (holds : daemon.Registered) (registered : daemon.peers.lookup key = some index)
    (same : ∀ session, (change session).isOf key = session.isOf key) :
    Apart key { daemon with sessions := daemon.sessions.modify index change }
      { lone with
        sessions := lone.sessions.modify (rank (Session.isOf key) daemon.sessions index) change } := by
  obtain ⟨session, at_index, own, -⟩ := apart.registered holds registered
  refine { apart with sessions := ?_, handle := ?_ }
  · rw [apart.sessions, filter_modify_of_pos same at_index own]
  · rw [apart.handle]
    exact congrArg ((daemon.peers.lookup key).map ·) (funext fun _ => (rank_modify same index).symm)

theorem Apart.change_other (change : Session → Session) (apart : Apart key daemon lone)
    (holds : daemon.Registered) (other : owner ≠ key)
    (registered : daemon.peers.lookup owner = some index)
    (same : ∀ session, (change session).isOf key = session.isOf key) :
    Apart key { daemon with sessions := daemon.sessions.modify index change } lone := by
  obtain ⟨session, at_index, key_eq⟩ := holds owner index registered
  have foreign : session.isOf key = false := decide_eq_false (key_eq ▸ other)
  refine { apart with sessions := ?_, handle := ?_ }
  · rw [apart.sessions, filter_modify_of_neg same at_index foreign]
  · rw [apart.handle]
    exact congrArg ((daemon.peers.lookup key).map ·) (funext fun _ => (rank_modify same index).symm)

theorem Apart.erase_own (apart : Apart key daemon lone) :
    Apart key { daemon with peers := daemon.peers.erase key }
      { lone with peers := lone.peers.erase key } := by
  refine { apart with handle := by simp, others := fun other distinct => ?_ }
  rw [AList.lookup_erase_ne distinct, apart.others other distinct]

theorem Apart.erase_other (apart : Apart key daemon lone) (other : owner ≠ key) :
    Apart key { daemon with peers := daemon.peers.erase owner } lone := by
  refine { apart with handle := ?_ }
  rw [apart.handle, AList.lookup_erase_ne other.symm]

/-! ## The parts of a dispatch -/

theorem Apart.dropStale_own (apart : Apart key daemon lone) (holds : daemon.Registered) :
    Apart key (daemon.dropStale key) (lone.dropStale key) := by
  rw [dropStale, dropStale]
  cases registered : daemon.peers.lookup key with
  | none =>
      rw [apart.handle, registered]
      exact apart
  | some index =>
      obtain ⟨session, at_index, -, lone_registered, lone_at⟩ := apart.registered holds registered
      simp only [lone_registered, at_index, lone_at, Option.any_some]
      split
      · exact (apart.change_own Session.forget holds registered fun _ => rfl).erase_own
      · exact apart

theorem Apart.dropStale_other (apart : Apart key daemon lone) (holds : daemon.Registered)
    (other : owner ≠ key) : Apart key (daemon.dropStale owner) lone := by
  obtain ⟨same, -⟩ | ⟨index, session, registered, -, -, same⟩ := daemon.dropStale_cases owner
  · rw [same]
    exact apart
  · rw [same]
    exact (apart.change_other Session.forget holds other registered fun _ => rfl).erase_other other

theorem Apart.ensure_own {peer : ValidatedPeer} (apart : Apart key daemon lone)
    (own : peer.pubkey = key) (text : Text) (terminal : Option Terminal) (unixSecs : Nat) :
    Apart key (daemon.ensure peer key text terminal unixSecs)
      (lone.ensure peer key text terminal unixSecs) := by
  have dispatching : DaemonPhase.seenBy key (.dispatching key text) = .dispatching key text :=
    if_pos rfl
  simp only [ensure, apart.handle]
  cases daemon.peers.lookup key with
  | some index => exact { apart with phase := fun _ => dispatching.symm }
  | none =>
      cases terminal with
      | none => exact apart
      | some terminal =>
          simp only [Option.map_none]
          have same_spawn : Session.spawn peer lone.limits lone.chunking
              (Pty.spawn terminal.inSize terminal.outSize) unixSecs =
                Session.spawn peer daemon.limits daemon.chunking
                  (Pty.spawn terminal.inSize terminal.outSize) unixSecs := by
            rw [apart.limits, apart.chunking]
          rw [same_spawn]
          split
          · exact { apart with phase := fun alive => (alive rfl).elim }
          · rename_i session created
            have is_own : session.isOf key = true := by
              rw [Session.isOf, (Session.fresh_of_spawn created).peer]
              exact decide_eq_true own
            refine { apart with
              sessions := ?_
              handle := ?_
              others := fun other distinct => ?_
              phase := fun _ => dispatching.symm }
            · rw [apart.sessions, List.filter_append, List.filter_cons_of_pos is_own]
              rfl
            · rw [AList.lookup_insert, AList.lookup_insert, Option.map_some,
                rank_append _ (Nat.le_refl _), rank_length, apart.sessions]
            · rw [AList.lookup_insert_ne distinct, apart.others other distinct]

theorem Apart.ensure_other {peer : ValidatedPeer} (apart : Apart key daemon lone)
    (inside : ∀ index, daemon.peers.lookup key = some index → index ≤ daemon.sessions.length)
    (running : daemon.phase = .running) (other : owner ≠ key) (owned : peer.pubkey = owner)
    (text : Text) (terminal : Option Terminal) (unixSecs : Nat) :
    Apart key (daemon.ensure peer owner text terminal unixSecs) lone := by
  have idle : lone.phase = .running := by
    rw [apart.phase (by simp [running]), running]
    rfl
  have unseen : DaemonPhase.seenBy key (.dispatching owner text) = .running := if_neg other
  simp only [ensure]
  cases daemon.peers.lookup owner with
  | some index => exact { apart with phase := fun _ => idle.trans unseen.symm }
  | none =>
      cases terminal with
      | none => exact apart
      | some terminal =>
          simp only
          split
          · exact { apart with phase := fun alive => (alive rfl).elim }
          · rename_i session created
            have foreign : session.isOf key = false := by
              rw [Session.isOf, (Session.fresh_of_spawn created).peer]
              exact decide_eq_false (owned ▸ other)
            refine { apart with
              sessions := ?_
              handle := ?_
              phase := fun _ => idle.trans unseen.symm }
            · rw [apart.sessions, List.filter_append]
              simp [foreign]
            · rw [apart.handle, AList.lookup_insert_ne other.symm]
              cases registered : daemon.peers.lookup key with
              | none => rfl
              | some index =>
                  rw [Option.map_some, Option.map_some, rank_append _ (inside index registered)]

theorem Apart.send_own (apart : Apart key daemon lone) (holds : daemon.Registered) (text : Text)
    (unixSecs : Nat) : Apart key (daemon.send key text unixSecs) (lone.send key text unixSecs) := by
  rw [send, send]
  cases registered : daemon.peers.lookup key with
  | none =>
      rw [apart.handle, registered]
      exact { apart with phase := fun _ => rfl }
  | some index =>
      obtain ⟨-, -, -, lone_registered, -⟩ := apart.registered holds registered
      rw [lone_registered]
      exact { apart.change_own _ holds registered (Session.isOf_deliver text unixSecs) with
        phase := fun _ => rfl }

theorem Apart.send_other (apart : Apart key daemon lone) (holds : daemon.Registered)
    (other : owner ≠ key) (idle : lone.phase = .running) (text : Text) (unixSecs : Nat) :
    Apart key (daemon.send owner text unixSecs) lone := by
  rw [send]
  cases registered : daemon.peers.lookup owner with
  | none => exact { apart with phase := fun _ => idle }
  | some index =>
      exact { apart.change_other _ holds other registered (Session.isOf_deliver text unixSecs) with
        phase := fun _ => idle }

/-! ## Reloads and the end -/

theorem Registered.revoke (holds : daemon.Registered) (pubkey : Text) :
    (daemon.revoke pubkey).Registered := by
  intro key index registered
  have revoked := revoked_revoke daemon pubkey
  rw [revoked.lookup] at registered
  split at registered
  · cases registered
  · obtain ⟨session, at_index, key_eq⟩ := holds key index registered
    obtain ⟨kept, -⟩ | ⟨told, -⟩ := revoked.session index
    · exact ⟨session, kept.trans at_index, key_eq⟩
    · exact ⟨session.dismiss .revoked, by rw [told, at_index]; rfl, key_eq⟩

theorem Apart.revoke (apart : Apart key daemon lone) (holds : daemon.Registered) (pubkey : Text) :
    Apart key (daemon.revoke pubkey) (lone.revoke pubkey) := by
  rw [Daemon.revoke, Daemon.revoke]
  by_cases own : pubkey = key
  · subst own
    cases registered : daemon.peers.lookup pubkey with
    | none =>
        rw [apart.handle, registered]
        exact apart
    | some index =>
        obtain ⟨-, -, -, lone_registered, -⟩ := apart.registered holds registered
        rw [lone_registered]
        exact (apart.change_own (·.dismiss .revoked) holds registered fun _ => rfl).erase_own
  · rw [apart.others pubkey own]
    cases registered : daemon.peers.lookup pubkey with
    | none => exact apart
    | some index =>
        have told := apart.change_other (·.dismiss .revoked) holds own registered fun _ => rfl
        exact told.erase_other own

theorem Apart.foldl_revoke (keys : List Text) (apart : Apart key daemon lone)
    (holds : daemon.Registered) :
    Apart key (keys.foldl Daemon.revoke daemon) (keys.foldl Daemon.revoke lone) := by
  induction keys generalizing daemon lone with
  | nil => exact apart
  | cons pubkey keys ih => exact ih (apart.revoke holds pubkey) (holds.revoke pubkey)

theorem Apart.reload (apart : Apart key daemon lone) (holds : daemon.Registered)
    (loaded : Except ConfigError Whitelist) :
    Apart key (daemon.reload loaded) (lone.reload loaded) := by
  cases loaded with
  | error error => exact apart
  | ok whitelist =>
      rw [Daemon.reload, Daemon.reload, apart.whitelist]
      have renewed : Apart key { daemon with whitelist } { lone with whitelist } :=
        { apart with whitelist := rfl }
      exact renewed.foldl_revoke _ holds

theorem mem_handles {index : Nat} :
    index ∈ daemon.peers.entries.map Sigma.snd ↔ ∃ key, daemon.peers.lookup key = some index := by
  simp [AList.mem_lookup_iff, ← Option.mem_def]

/-- The sessions after the peer of a key was told to shut down. -/
def told (daemon : Daemon) (key : Text) : List Session :=
  match daemon.peers.lookup key with
  | none => daemon.sessions
  | some index => daemon.sessions.modify index (·.dismiss .shutdown)

theorem getElem?_told (daemon : Daemon) (key : Text) (index : Nat) :
    (daemon.told key)[index]? = (daemon.sessions[index]?).map fun session =>
      if daemon.peers.lookup key = some index then session.dismiss .shutdown else session := by
  rw [told]
  cases daemon.peers.lookup key with
  | none => simp
  | some number =>
      rw [List.getElem?_modify]
      cases daemon.sessions[index]? with
      | none => rfl
      | some session =>
          by_cases here : number = index
          · simp [here]
          · simp [here]

/-- Where no other peer has a handle, nobody else is told. -/
theorem stop_of_others (others : ∀ other, other ≠ key → daemon.peers.lookup other = none) :
    daemon.stop.sessions = daemon.told key := by
  apply List.ext_getElem?
  intro index
  rw [stop, getElem?_dismissAll, getElem?_told]
  have only : index ∈ daemon.peers.entries.map Sigma.snd ↔ daemon.peers.lookup key = some index := by
    rw [mem_handles]
    refine ⟨?_, fun registered => ⟨key, registered⟩⟩
    rintro ⟨owner, registered⟩
    by_cases own : owner = key
    · exact own ▸ registered
    · rw [others owner own] at registered
      cases registered
  simp only [only]

/-- As far as the sessions of one peer go, telling everyone is telling that peer. -/
theorem filter_stop (holds : daemon.Registered) (key : Text) :
    daemon.stop.sessions.filter (Session.isOf key) = (daemon.told key).filter (Session.isOf key) := by
  refine filter_eq_of_getElem? ?_ fun index first second first_at second_at => ?_
  · rw [stop, length_dismissAll, told]
    split
    · rfl
    · rw [List.length_modify]
  · rw [stop, getElem?_dismissAll] at first_at
    rw [getElem?_told] at second_at
    obtain ⟨session, at_index, rfl⟩ := Option.map_eq_some_iff.mp first_at
    rw [at_index] at second_at
    obtain rfl := Option.some.inj second_at
    by_cases own : daemon.peers.lookup key = some index
    · left
      simp only [if_pos own, if_pos (mem_handles.mpr ⟨key, own⟩)]
    · simp only [if_neg own]
      split
      · rename_i handled
        obtain ⟨owner, registered⟩ := mem_handles.mp handled
        obtain ⟨found, found_at, key_eq⟩ := holds owner index registered
        obtain rfl : session = found := by simpa [at_index] using found_at
        have other : owner ≠ key := fun same => own (same ▸ registered)
        have foreign : session.isOf key = false := decide_eq_false (key_eq ▸ other)
        exact .inr ⟨foreign, foreign⟩
      · exact .inl rfl

theorem Apart.told (apart : Apart key daemon lone) (holds : daemon.Registered) :
    lone.told key = (daemon.told key).filter (Session.isOf key) := by
  rw [Daemon.told, Daemon.told]
  cases registered : daemon.peers.lookup key with
  | none =>
      rw [apart.handle, registered]
      exact apart.sessions
  | some index =>
      obtain ⟨-, -, -, lone_registered, -⟩ := apart.registered holds registered
      rw [lone_registered]
      exact (apart.change_own (·.dismiss .shutdown) holds registered fun _ => rfl).sessions

theorem Apart.stop (apart : Apart key daemon lone) (holds : daemon.Registered) :
    Apart key daemon.stop lone.stop :=
  { apart with
    sessions := by rw [stop_of_others apart.others, apart.told holds, filter_stop holds]
    handle := rfl
    others := fun _ _ => rfl
    phase := fun _ => rfl }

/-! ## A step, with the peer alone or without -/

/-- The frames that bring a text of the peer. -/
def ownFrames (reader : JsonReader) (key : Text) (frames : List (Text × Text)) : List (Text × Text) :=
  frames.filter fun frame => (textFrom reader key frame).isSome

/-- What the lone daemon does when the daemon takes a step: nothing, or a step that handles the same
frames of the peer and the same commands. -/
inductive Follows (strip : List UInt8 → List UInt8) (reader : JsonReader) (key : Text)
    (lone : Daemon) (action : DaemonAction) (next : Daemon) : Prop
  | aside (frames : ownFrames reader key action.frames = []) (command : action.isCommand = false)
      (apart : Apart key next lone)
  | along (own : DaemonAction) {after : Daemon} (stepped : lone.step strip reader own = some after)
      (frames : own.frames = ownFrames reader key action.frames)
      (commands : [own].filter DaemonAction.isCommand = [action].filter DaemonAction.isCommand)
      (apart : Apart key next after)

theorem Apart.frame (apart : Apart key daemon lone) (holds : daemon.Registered)
    (running : daemon.phase = .running) (name data : Text) (terminal : Option Terminal)
    (unixSecs : Nat) :
    Follows strip reader key lone (.frame name data terminal unixSecs)
      (daemon.frame reader name data terminal unixSecs) := by
  have idle : lone.phase = .running := by
    rw [apart.phase (by simp [running]), running]
    rfl
  have inside : ∀ owner index, (daemon.dropStale owner).peers.lookup key = some index →
      index ≤ (daemon.dropStale owner).sessions.length := by
    intro owner index registered
    obtain ⟨session, at_index, -⟩ := holds key index (lookup_of_dropStale registered)
    rw [length_dropStale]
    exact (List.getElem?_eq_some_iff.mp at_index).1.le
  cases brought : textFrom reader key (name, data) with
  | none =>
      refine .aside (by simp [ownFrames, DaemonAction.frames, brought]) rfl ?_
      rw [Daemon.frame]
      split
      · exact { apart with }
      · rename_i dm parsed
        rw [dispatch]
        split
        · exact apart
        · rename_i text text_eq
          split
          · exact apart
          · rename_i owner sender
            have other : owner ≠ key := by
              rintro rfl
              simp [textFrom, parsed, sender, text_eq] at brought
            split
            · exact apart
            · rename_i peer listed
              exact (apart.dropStale_other holds other).ensure_other (inside owner)
                ((phase_dropStale daemon owner).trans running) other
                (Whitelist.pubkey_of_get listed) text terminal unixSecs
      · exact apart
  | some text =>
      refine .along (.frame name data terminal unixSecs) (if_pos ⟨idle, apart.streaming⟩)
        (by simp [ownFrames, DaemonAction.frames, brought]) rfl ?_
      simp only [textFrom] at brought
      split at brought
      · rename_i dm parsed
        split at brought
        · rename_i sender
          simp only [Daemon.frame, parsed, dispatch, brought, sender, apart.whitelist]
          split
          · exact apart
          · rename_i peer listed
            exact (apart.dropStale_own holds).ensure_own (Whitelist.pubkey_of_get listed) text terminal
              unixSecs
        · cases brought
      · cases brought

theorem Apart.session_step {act : SessionAction} {session moved : Session}
    (apart : Apart key daemon lone) (own : act.own = true)
    (at_index : daemon.sessions[index]? = some session)
    (stepped : session.step strip act = some moved) (not_returned : daemon.phase ≠ .returned)
    (not_panicked : daemon.phase ≠ .panicked) :
    Follows strip reader key lone (.session index act)
      { daemon with sessions := daemon.sessions.set index moved } := by
  have same : moved.isOf key = session.isOf key := Session.isOf_of_peer (Session.peer_of_step stepped)
  have handle : lone.peers.lookup key = (daemon.peers.lookup key).map
      (rank (Session.isOf key) (daemon.sessions.set index moved)) := by
    rw [apart.handle]
    exact congrArg ((daemon.peers.lookup key).map ·) (funext fun _ => (rank_set at_index same).symm)
  cases is_own : session.isOf key with
  | false =>
      refine .aside rfl rfl { apart with sessions := ?_, handle := handle }
      rw [apart.sessions, filter_set_of_neg at_index is_own (same.trans is_own)]
  | true =>
      have lone_at : lone.sessions[rank (Session.isOf key) daemon.sessions index]? = some session := by
        rw [apart.sessions]
        exact getElem?_rank at_index is_own
      have going : lone.phase ≠ .returned ∧ lone.phase ≠ .panicked := by
        rw [apart.phase not_panicked]
        cases phase : daemon.phase with
        | dispatching owner text =>
            rw [DaemonPhase.seenBy]
            split <;> exact ⟨by simp, by simp⟩
        | returned => exact (not_returned phase).elim
        | panicked => exact (not_panicked phase).elim
        | _ => exact ⟨by simp [DaemonPhase.seenBy], by simp [DaemonPhase.seenBy]⟩
      have lone_stepped : lone.step strip reader
          (.session (rank (Session.isOf key) daemon.sessions index) act) =
            some { lone with
                   sessions := lone.sessions.set (rank (Session.isOf key) daemon.sessions index)
                     moved } := by
        simp [Daemon.step, own, going, lone_at, stepped]
      refine .along _ lone_stepped rfl rfl { apart with sessions := ?_, handle := handle }
      rw [apart.sessions, filter_set_of_pos at_index is_own (same.trans is_own)]

theorem Apart.step (apart : Apart key daemon lone) (holds : daemon.Registered)
    (stepped : daemon.step strip reader action = some next) :
    Follows strip reader key lone action next := by
  cases action with
  | frame name data terminal unixSecs =>
      simp only [Daemon.step] at stepped
      split at stepped
      · rename_i allowed
        obtain rfl := Option.some.inj stepped
        exact apart.frame holds allowed.1 name data terminal unixSecs
      · cases stepped
  | send unixSecs =>
      simp only [Daemon.step] at stepped
      split at stepped
      · rename_i owner text dispatching
        obtain rfl := Option.some.inj stepped
        have seen : lone.phase = DaemonPhase.seenBy key (.dispatching owner text) := by
          rw [apart.phase (by simp [dispatching]), dispatching]
        by_cases own : owner = key
        · subst own
          rw [DaemonPhase.seenBy, if_pos rfl] at seen
          refine .along (.send unixSecs) ?_ rfl rfl (apart.send_own holds text unixSecs)
          simp only [Daemon.step, seen]
        · rw [DaemonPhase.seenBy, if_neg own] at seen
          exact .aside rfl rfl (apart.send_other holds own seen text unixSecs)
      · cases stepped
  | reload loaded =>
      simp only [Daemon.step] at stepped
      split at stepped
      · rename_i running
        obtain rfl := Option.some.inj stepped
        refine .along (.reload loaded) (if_pos ?_) rfl rfl (apart.reload holds loaded)
        rw [apart.phase (by simp [running]), running]
        rfl
      · cases stepped
  | stop =>
      simp only [Daemon.step] at stepped
      split at stepped
      · rename_i running
        obtain rfl := Option.some.inj stepped
        refine .along .stop (if_pos ?_) rfl rfl (apart.stop holds)
        rw [apart.phase (by simp [running]), running]
        rfl
      · cases stepped
  | finish =>
      simp only [Daemon.step] at stepped
      split at stepped
      · rename_i closing
        obtain rfl := Option.some.inj stepped
        refine .along .finish (if_pos ?_) rfl rfl { apart with phase := fun _ => rfl }
        rw [apart.phase (by simp [closing]), closing]
        rfl
      · cases stepped
  | session index act =>
      simp only [Daemon.step] at stepped
      split at stepped
      · rename_i allowed
        obtain ⟨own, not_returned, not_panicked⟩ := allowed
        obtain ⟨session, at_index, stepped⟩ := Option.bind_eq_some_iff.mp stepped
        obtain ⟨moved, session_stepped, rfl⟩ := Option.map_eq_some_iff.mp stepped
        exact apart.session_step own at_index session_stepped not_returned not_panicked
      · cases stepped

/-! ## A run, with the peer alone or without -/

theorem ownFrames_append (first second : List (Text × Text)) :
    ownFrames reader key (first ++ second) =
      ownFrames reader key first ++ ownFrames reader key second :=
  List.filter_append _ _

/-- The messages, the sessions and the handles of the other peers make no difference to a peer: what
its sessions went through they can go through in a run with the same commands in which no other peer
wrote anything. -/
theorem peer_isolated {limits : LimitsConfig} {chunking : ChunkingConfig} {whitelist : Whitelist}
    {schedule : List DaemonAction}
    (ran : run (step strip reader) (new limits chunking whitelist) schedule = some daemon)
    (key : Text) :
    ∃ own lone, run (step strip reader) (new limits chunking whitelist) own = some lone ∧
      lone.sessions = daemon.sessions.filter (Session.isOf key) ∧
        own.flatMap DaemonAction.frames =
            ownFrames reader key (schedule.flatMap DaemonAction.frames) ∧
          own.filter DaemonAction.isCommand = schedule.filter DaemonAction.isCommand := by
  have holds : ∃ own lone, run (step strip reader) (new limits chunking whitelist) own = some lone ∧
      Apart key daemon lone ∧
        own.flatMap DaemonAction.frames =
            ownFrames reader key (schedule.flatMap DaemonAction.frames) ∧
          own.filter DaemonAction.isCommand = schedule.filter DaemonAction.isCommand := by
    induction schedule using List.reverseRecOn generalizing daemon with
    | nil =>
        obtain rfl := Option.some.inj ran
        exact ⟨[], _, rfl, apart_new limits chunking whitelist key, rfl, rfl⟩
    | append_singleton schedule action ih =>
        obtain ⟨before, ran_before, stepped⟩ := run_concat_eq_some.mp ran
        obtain ⟨own, lone, lone_ran, apart, frames, commands⟩ := ih ran_before
        rw [List.flatMap_append, ownFrames_append, List.flatMap_singleton, List.filter_append,
          ← frames, ← commands]
        cases apart.step (registered_of_run ran_before) stepped with
        | aside no_frames command now =>
            refine ⟨own, lone, lone_ran, now, ?_, ?_⟩
            · rw [no_frames, List.append_nil]
            · simp [command]
        | along act lone_stepped same_frames same_commands now =>
            refine ⟨own ++ [act], _, run_concat_eq_some.mpr ⟨lone, lone_ran, lone_stepped⟩, now, ?_, ?_⟩
            · rw [List.flatMap_append, List.flatMap_singleton, same_frames]
            · rw [List.filter_append, same_commands]
  obtain ⟨own, lone, lone_ran, apart, frames, commands⟩ := holds
  exact ⟨own, lone, lone_ran, apart.sessions, frames, commands⟩

/-- One message, a session that starts, and the end. -/
theorem peer_isolated_sample :
    ∃ daemon own lone, run (step id sampleReader) sample
        [sampleFrame, .send 0, .session 0 (.actor (.plain 0 0)), .stop] = some daemon ∧
      run (step id sampleReader) sample own = some lone ∧
        lone.sessions = daemon.sessions.filter (Session.isOf sampleKey) ∧
          lone.sessions.length = 1 ∧
            own.flatMap DaemonAction.frames =
              ownFrames sampleReader sampleKey [("message".toList, sampleData)] := by
  have completes : (run (step id sampleReader) sample
      [sampleFrame, .send 0, .session 0 (.actor (.plain 0 0)), .stop]).map
        (fun daemon => (daemon.sessions.filter (Session.isOf sampleKey)).length) = some 1 := by
    decide +kernel
  obtain ⟨daemon, ran, one⟩ := Option.map_eq_some_iff.mp completes
  obtain ⟨own, lone, lone_ran, sessions, frames, -⟩ := peer_isolated ran sampleKey
  exact ⟨daemon, own, lone, ran, lone_ran, sessions, by rw [sessions, one], frames⟩

end Daemon

end Loraterm
