import Loraterm.DaemonSteps

/-!
# Handles of live sessions

A session that was told nothing and is alive has its handle in the registry.  So when a peer gets
another session, each earlier one was told to stop or is over.
-/

namespace Loraterm

open Utf8Text Mpsc Execution

namespace Session

variable {strip : List UInt8 → List UInt8}

/-- No shutdown reason was sent to the session. -/
def Untold (session : Session) : Prop := ∀ reason, session.shutdown ≠ .sent reason

theorem ActorStep.shutdown {session next : Session} (stepped : ActorStep strip session next) :
    next.shutdown = session.shutdown := by
  cases stepped <;> rfl

theorem shutdown_of_own {session next : Session} {action : SessionAction}
    (stepped : session.step strip action = some next) (own : action.own = true) :
    next.shutdown = session.shutdown := by
  cases sessionStep_of_step stepped with
  | dismissed => cases own
  | forgotten => cases own
  | acted acted => exact (actorStep_of_actor acted).shutdown
  | _ => rfl

@[simp] theorem shutdown_deliver (session : Session) (line : Text) (unixSecs : Nat) :
    (session.deliver line unixSecs).shutdown = session.shutdown := by
  rw [deliver]
  split
  · rfl
  · rfl

@[simp] theorem phase_deliver (session : Session) (line : Text) (unixSecs : Nat) :
    (session.deliver line unixSecs).phase = session.phase := by
  rw [deliver]
  split
  · rfl
  · rfl

@[simp] theorem peer_deliver (session : Session) (line : Text) (unixSecs : Nat) :
    (session.deliver line unixSecs).peer = session.peer := by
  rw [deliver]
  split
  · rfl
  · rfl

/-- What was said to a session stays said. -/
theorem sent_of_step {session next : Session} {action : SessionAction} {reason : Reason}
    (stepped : session.step strip action = some next) (told : session.shutdown = .sent reason) :
    next.shutdown = .sent reason := by
  cases sessionStep_of_step stepped with
  | dismissed => simp [dismiss, told]
  | forgotten => simp [forget, told]
  | acted acted => exact (actorStep_of_actor acted).shutdown.trans told
  | _ => exact told

theorem untold_of_step {session next : Session} {action : SessionAction}
    (stepped : session.step strip action = some next) (untold : next.Untold) : session.Untold :=
  fun reason told => untold reason (sent_of_step stepped told)

/-- A reason was there before, or was just sent. -/
theorem sent_cases {session next : Session} {action : SessionAction} {reason : Reason}
    (stepped : session.step strip action = some next) (told : next.shutdown = .sent reason) :
    session.shutdown = .sent reason ∨ action = .dismiss reason := by
  cases sessionStep_of_step stepped with
  | dismissed =>
      simp only [dismiss] at told
      split at told
      · obtain rfl := Oneshot.sent.inj told
        exact .inr rfl
      · exact .inl told
  | forgotten =>
      simp only [forget] at told
      split at told
      · cases told
      · exact .inl told
  | acted acted => exact .inl ((actorStep_of_actor acted).shutdown.symm.trans told)
  | _ => exact .inl told

/-- A live session loses its handle's shutdown sender only with a reason. -/
theorem dropped_of_step {session next : Session} {action : SessionAction}
    (stepped : session.step strip action = some next) (forgets : action ≠ .forget)
    (dropped : next.shutdown = .dropped) : session.shutdown = .dropped := by
  cases sessionStep_of_step stepped with
  | dismissed =>
      simp only [dismiss] at dropped
      split at dropped
      · cases dropped
      · exact dropped
  | forgotten => exact (forgets rfl).elim
  | acted acted => exact (actorStep_of_actor acted).shutdown.symm.trans dropped
  | _ => exact dropped

theorem told_dismiss {session : Session} (waiting : session.shutdown = .waiting) (reason : Reason) :
    (session.dismiss reason).shutdown = .sent reason := by
  simp [dismiss, waiting]

theorem waiting_of_untold {session : Session} (untold : session.Untold)
    (alive : session.phase.isOver = false)
    (dropped : session.shutdown = .dropped → session.phase.isOver = true) :
    session.shutdown = .waiting := by
  cases said : session.shutdown with
  | waiting => rfl
  | sent reason => exact (untold reason said).elim
  | dropped =>
      rw [dropped said] at alive
      cases alive

end Session

namespace Daemon

variable {strip : List UInt8 → List UInt8} {reader : JsonReader}

/-- Sessions are sound, those without a shutdown sender are over or were told, those alive and not
told have their handle registered, and those replaced were told or are over. -/
structure Tended (daemon : Daemon) : Prop where
  sound : ∀ session ∈ daemon.sessions, session.Sound
  dropped : ∀ session ∈ daemon.sessions, session.shutdown = .dropped → session.phase.isOver = true
  handled : ∀ (index : Nat) (session : Session), daemon.sessions[index]? = some session →
    session.shutdown = .waiting → session.phase.isOver = false →
      daemon.peers.lookup session.peer.pubkey = some index
  replaced : ∀ (first second : Nat) (one other : Session), first < second →
    daemon.sessions[first]? = some one → daemon.sessions[second]? = some other →
      one.peer.pubkey = other.peer.pubkey → one.Untold → one.phase.isOver = true

theorem Tended.waiting {daemon : Daemon} (tended : daemon.Tended) {session : Session}
    (member : session ∈ daemon.sessions) (untold : session.Untold)
    (alive : session.phase.isOver = false) : session.shutdown = .waiting :=
  Session.waiting_of_untold untold alive (tended.dropped session member)

theorem Tended.dropped_step {daemon next : Daemon} {action : DaemonAction} (tended : daemon.Tended)
    (stepped : DaemonStep strip reader daemon action next) :
    ∀ session ∈ next.sessions, session.shutdown = .dropped → session.phase.isOver = true := by
  intro now member dropped
  obtain ⟨index, now_at⟩ := List.mem_iff_getElem?.mp member
  obtain ⟨session, at_index, same | ⟨act, session_stepped, caused⟩⟩ | ⟨-, peer, terminal, _, new⟩ :=
    session_of_step stepped now_at
  · obtain rfl := same
    exact tended.dropped now (List.mem_of_getElem? at_index) dropped
  · have member_before := List.mem_of_getElem? at_index
    have is_over : session.phase.isOver = true := by
      by_cases forgets : act = .forget
      · obtain rfl := forgets
        obtain ⟨stale, stale_at, closed⟩ := caused
        obtain rfl : session = stale := by simpa [at_index] using stale_at
        simpa [(tended.sound session member_before).live] using closed
      · exact tended.dropped session member_before
          (Session.dropped_of_step session_stepped forgets dropped)
    rw [Session.over_of_step session_stepped is_over, is_over]
  · rw [(Session.fresh_of_spawn new).shutdown] at dropped
    cases dropped

theorem Tended.handled_dropStale {daemon : Daemon} (tended : daemon.Tended) (pubkey : Text)
    {index : Nat} {session : Session}
    (at_index : (daemon.dropStale pubkey).sessions[index]? = some session)
    (waiting : session.shutdown = .waiting) (alive : session.phase.isOver = false) :
    (daemon.dropStale pubkey).peers.lookup session.peer.pubkey = some index := by
  obtain ⟨same, -⟩ | ⟨stale, closed_session, registered, stale_at, closed, same⟩ :=
    daemon.dropStale_cases pubkey
  · rw [same] at at_index ⊢
    exact tended.handled index session at_index waiting alive
  · obtain ⟨before, before_at, rfl | ⟨rfl, -⟩⟩ := session_of_dropStale at_index
    · have handled := tended.handled index session before_at waiting alive
      rw [same]
      by_cases here : session.peer.pubkey = pubkey
      · rw [here, registered] at handled
        obtain rfl := Option.some.inj handled
        obtain rfl : session = closed_session := by simpa [before_at] using stale_at
        rw [(tended.sound session (List.mem_of_getElem? before_at)).live, alive] at closed
        cases closed
      · rw [AList.lookup_erase_ne here]
        exact handled
    · simp only [Session.forget] at waiting
      split at waiting
      · cases waiting
      · contradiction

theorem Tended.handled_reload {daemon : Daemon} (tended : daemon.Tended) (whitelist : Whitelist)
    {index : Nat} {now : Session}
    (now_at : (daemon.reload (.ok whitelist)).sessions[index]? = some now)
    (waiting : now.shutdown = .waiting) (alive : now.phase.isOver = false) :
    (daemon.reload (.ok whitelist)).peers.lookup now.peer.pubkey = some index := by
  have revoked := revoked_foldl (diffWhitelist daemon.whitelist whitelist).removed
    { daemon with whitelist }
  have now_here := now_at
  rw [reload] at now_here
  obtain ⟨kept, unlisted⟩ | ⟨told, -⟩ := revoked.session index
  · rw [kept] at now_here
    have handled := tended.handled index now now_here waiting alive
    have still_listed : now.peer.pubkey ∉ (diffWhitelist daemon.whitelist whitelist).removed :=
      fun removed => unlisted _ removed handled
    rw [lookup_reload, if_neg still_listed]
    exact handled
  · rw [told] at now_here
    obtain ⟨session, -, rfl⟩ := Option.map_eq_some_iff.mp now_here
    simp only [Session.dismiss] at waiting
    split at waiting
    · cases waiting
    · contradiction

/-- Leaving the loop tells every live session that was not told before. -/
theorem Tended.told_stop {daemon : Daemon} (tended : daemon.Tended) {index : Nat} {now : Session}
    (now_at : daemon.stop.sessions[index]? = some now) (alive : now.phase.isOver = false) :
    ∃ session, daemon.sessions[index]? = some session ∧
      ((session.shutdown = .waiting ∧ now.shutdown = .sent .shutdown) ∨
        ∃ reason, session.shutdown = .sent reason ∧ now.shutdown = .sent reason) := by
  simp only [stop, getElem?_dismissAll] at now_at
  obtain ⟨session, at_index, now_eq⟩ := Option.map_eq_some_iff.mp now_at
  refine ⟨session, at_index, ?_⟩
  have alive_before : session.phase.isOver = false := by
    rw [← now_eq] at alive
    split at alive
    · exact alive
    · exact alive
  cases said : session.shutdown with
  | waiting =>
      have handled := tended.handled index session at_index said alive_before
      have entry : index ∈ daemon.peers.entries.map Sigma.snd :=
        List.mem_map.mpr ⟨_, AList.mem_lookup_iff.mp handled, rfl⟩
      rw [if_pos entry] at now_eq
      rw [← now_eq]
      exact .inl ⟨rfl, Session.told_dismiss said .shutdown⟩
  | sent reason =>
      right
      refine ⟨reason, rfl, ?_⟩
      rw [← now_eq]
      split
      · simp [Session.dismiss, said]
      · exact said
  | dropped =>
      rw [tended.dropped session (List.mem_of_getElem? at_index) said] at alive_before
      cases alive_before

theorem Tended.handled_step {daemon next : Daemon} {action : DaemonAction} (tended : daemon.Tended)
    (stepped : DaemonStep strip reader daemon action next) {index : Nat} {now : Session}
    (now_at : next.sessions[index]? = some now) (waiting : now.shutdown = .waiting)
    (alive : now.phase.isOver = false) : next.peers.lookup now.peer.pubkey = some index := by
  cases stepped with
  | ignored => exact tended.handled index now now_at waiting alive
  | broken => exact tended.handled index now now_at waiting alive
  | finished => exact tended.handled index now now_at waiting alive
  | refused brings => exact tended.handled_dropStale _ now_at waiting alive
  | panicked brings => exact tended.handled_dropStale _ now_at waiting alive
  | kept brings registered => exact tended.handled_dropStale _ now_at waiting alive
  | @spawned name data pubkey text peer terminal unixSecs session brings missing created =>
      obtain before_at | ⟨last, rfl⟩ := getElem?_concat_cases now_at
      · have handled := tended.handled_dropStale pubkey before_at waiting alive
        have other : now.peer.pubkey ≠ pubkey := by
          intro same
          rw [same, missing] at handled
          cases handled
        rw [AList.lookup_insert_ne other]
        exact handled
      · obtain ⟨dm, -, -, -, listed⟩ := brings
        rw [last, length_dropStale, (Session.fresh_of_spawn created).peer,
          Whitelist.pubkey_of_get listed]
        exact AList.lookup_insert _
  | @sent pubkey text unixSecs dispatching =>
      simp only [send] at now_at ⊢
      split at now_at
      · exact tended.handled index now now_at waiting alive
      · obtain ⟨session, at_index, rfl | ⟨rfl, rfl⟩⟩ := getElem?_modify_cases now_at
        · exact tended.handled index now at_index waiting alive
        · rw [Session.shutdown_deliver] at waiting
          rw [Session.phase_deliver] at alive
          rw [Session.peer_deliver]
          exact tended.handled _ session at_index waiting alive
  | @reloaded whitelist => exact tended.handled_reload whitelist now_at waiting alive
  | stopped =>
      obtain ⟨session, -, ⟨-, told⟩ | ⟨reason, -, told⟩⟩ := tended.told_stop now_at alive
      · rw [told] at waiting
        cases waiting
      · rw [told] at waiting
        cases waiting
  | @moved number act session moved own number_at session_stepped =>
      obtain unchanged | ⟨rfl, rfl⟩ := getElem?_set_cases now_at
      · exact tended.handled index now unchanged waiting alive
      · rw [Session.shutdown_of_own session_stepped own] at waiting
        rw [Session.peer_of_step session_stepped]
        exact tended.handled number session number_at waiting
          (Session.alive_before session_stepped alive)

/-- A session that is not new was untold and over at most if it is now. -/
theorem earlier_of_step {daemon next : Daemon} {action : DaemonAction}
    (stepped : DaemonStep strip reader daemon action next) {index : Nat} {now : Session}
    (now_at : next.sessions[index]? = some now) (inside : index < daemon.sessions.length) :
    ∃ session, daemon.sessions[index]? = some session ∧ session.peer = now.peer ∧
      (now.Untold → session.Untold) ∧ (session.phase.isOver = true → now.phase.isOver = true) := by
  obtain ⟨session, at_index, rfl | ⟨act, session_stepped, -⟩⟩ | ⟨at_end, -⟩ :=
    session_of_step stepped now_at
  · exact ⟨now, at_index, rfl, id, id⟩
  · refine ⟨session, at_index, (Session.peer_of_step session_stepped).symm,
      Session.untold_of_step session_stepped, fun is_over => ?_⟩
    rw [Session.over_of_step session_stepped is_over, is_over]
  · omega

theorem Tended.step {daemon next : Daemon} {action : DaemonAction} (tended : daemon.Tended)
    (stepped : DaemonStep strip reader daemon action next) : next.Tended where
  sound := sound_of_step tended.sound stepped
  dropped := tended.dropped_step stepped
  handled := fun _ _ now_at waiting alive => tended.handled_step stepped now_at waiting alive
  replaced := by
    intro first second one other earlier one_at other_at same_peer untold
    obtain ⟨session, at_second, outcome⟩ | ⟨at_end, peer, terminal, _, new⟩ :=
      session_of_step stepped other_at
    · have inside : first < daemon.sessions.length := by
        obtain ⟨second_inside, -⟩ := List.getElem?_eq_some_iff.mp at_second
        omega
      obtain ⟨before, before_at, before_peer, before_untold, before_over⟩ :=
        earlier_of_step stepped one_at inside
      refine before_over (tended.replaced first second before session earlier before_at at_second
        ?_ (before_untold untold))
      rw [before_peer, same_peer]
      obtain same | ⟨act, session_stepped, -⟩ := outcome
      · rw [same]
      · rw [Session.peer_of_step session_stepped]
    · by_contra still_alive
      have alive : one.phase.isOver = false := by simpa using still_alive
      have waiting := Session.waiting_of_untold untold alive
        (tended.dropped_step stepped one (List.mem_of_getElem? one_at))
      have one_handled := tended.handled_step stepped one_at waiting alive
      have fresh := Session.fresh_of_spawn new
      have other_handled := tended.handled_step stepped other_at fresh.shutdown
        (by rw [fresh.phase]; rfl)
      rw [← same_peer, one_handled] at other_handled
      obtain rfl := Option.some.inj other_handled
      omega

theorem tended_new (limits : LimitsConfig) (chunking : ChunkingConfig) (whitelist : Whitelist) :
    (new limits chunking whitelist).Tended :=
  ⟨by simp [new], by simp [new], by simp [new], by simp [new]⟩

theorem tended_of_run {limits : LimitsConfig} {chunking : ChunkingConfig} {whitelist : Whitelist}
    {daemon : Daemon} {schedule : List DaemonAction}
    (ran : run (step strip reader) (new limits chunking whitelist) schedule = some daemon) :
    daemon.Tended :=
  invariant_of_run (fun _ _ _ tended stepped => Tended.step tended (daemonStep_of_step stepped)) ran
    (tended_new limits chunking whitelist)

end Daemon

end Loraterm
