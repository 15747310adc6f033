import Loraterm.TrustBoundary

/-!
# One session per peer

The registry forgets the handle of a removed peer at once, while its actor still drains its queue
and waits for its child.  So a peer that is listed again can get a second session next to the
first; that is the only way to two.
-/

namespace Loraterm

open Utf8Text Mpsc Execution

namespace Daemon

/-- At most one actor of each peer is alive, and a handle of its peer belongs to it. -/
structure OnePerPeer (daemon : Daemon) : Prop where
  unique : ∀ (first second : Nat) (one other : Session), daemon.sessions[first]? = some one →
    daemon.sessions[second]? = some other → one.phase.isOver = false → other.phase.isOver = false →
      one.peer.pubkey = other.peer.pubkey → first = second
  handle : ∀ (key : Text) (handle index : Nat) (session : Session), daemon.peers.lookup key = some handle →
    daemon.sessions[index]? = some session → session.phase.isOver = false →
      session.peer.pubkey = key → handle = index

/-- A frame that spawns a session for a peer without a handle finds no actor of it alive. -/
def SpawnsAlone (reader : JsonReader) (daemon : Daemon) : DaemonAction → Prop
  | .frame name data (some _) _ => ∀ key text peer, Brings reader daemon name data key text peer →
      daemon.limits.inboundChannelDepth ≠ 0 → daemon.peers.lookup key = none →
        ∀ session ∈ daemon.sessions, session.peer.pubkey = key → session.phase.isOver = true
  | _ => True

variable {strip : List UInt8 → List UInt8} {reader : JsonReader}

/-- What is alive and registered after a step was so before, so nothing is violated. -/
theorem OnePerPeer.of_fewer {daemon next : Daemon} (one : daemon.OnePerPeer)
    (lookup : ∀ key index, next.peers.lookup key = some index →
      daemon.peers.lookup key = some index)
    (alive : ∀ (index : Nat) (now : Session), next.sessions[index]? = some now → now.phase.isOver = false →
      ∃ session, daemon.sessions[index]? = some session ∧ session.phase.isOver = false ∧
        session.peer.pubkey = now.peer.pubkey) : next.OnePerPeer where
  unique := by
    intro first second now other now_at other_at now_alive other_alive same_key
    obtain ⟨session, at_first, session_alive, key_eq⟩ := alive first now now_at now_alive
    obtain ⟨session', at_second, session_alive', key_eq'⟩ := alive second other other_at other_alive
    exact one.unique first second session session' at_first at_second session_alive session_alive'
      (by rw [key_eq, key_eq', same_key])
  handle := by
    intro key handle index now found now_at now_alive key_eq
    obtain ⟨session, at_index, session_alive, same_key⟩ := alive index now now_at now_alive
    exact one.handle key handle index session (lookup key handle found) at_index session_alive
      (by rw [same_key, key_eq])

/-- A live session is new at a step, or was alive before. -/
theorem alive_of_step {daemon next : Daemon} {action : DaemonAction}
    (stepped : DaemonStep strip reader daemon action next) {index : Nat} {now : Session}
    (now_at : next.sessions[index]? = some now) (alive : now.phase.isOver = false) :
    (∃ session, daemon.sessions[index]? = some session ∧ session.phase.isOver = false ∧
        session.peer.pubkey = now.peer.pubkey) ∨ index = daemon.sessions.length := by
  obtain ⟨session, at_index, same | ⟨act, session_stepped, -⟩⟩ | ⟨at_end, -⟩ :=
    session_of_step stepped now_at
  · exact .inl ⟨session, at_index, same ▸ alive, by rw [same]⟩
  · exact .inl ⟨session, at_index, Session.alive_before session_stepped alive,
      by rw [Session.peer_of_step session_stepped]⟩
  · exact .inr at_end

/-- After stale handles are dropped, a peer without a handle has no live actor, provided it has
none when it has no handle to begin with. -/
theorem over_of_missing {daemon : Daemon} {key : Text} (one : daemon.OnePerPeer)
    (sound : ∀ session ∈ daemon.sessions, session.Sound)
    (alone : daemon.peers.lookup key = none →
      ∀ session ∈ daemon.sessions, session.peer.pubkey = key → session.phase.isOver = true)
    (missing : (daemon.dropStale key).peers.lookup key = none) {index : Nat} {session : Session}
    (at_index : daemon.sessions[index]? = some session) (key_eq : session.peer.pubkey = key) :
    session.phase.isOver = true := by
  obtain ⟨same, -⟩ | ⟨stale, closed_session, registered, stale_at, closed, -⟩ :=
    daemon.dropStale_cases key
  · rw [same] at missing
    exact alone missing session (List.mem_of_getElem? at_index) key_eq
  · by_contra alive
    have alive : session.phase.isOver = false := by simpa using alive
    obtain rfl := one.handle key stale index session registered at_index alive key_eq
    obtain rfl : session = closed_session := by simpa [at_index] using stale_at
    rw [(sound session (List.mem_of_getElem? at_index)).live, alive] at closed
    cases closed

/-- The session a frame spawns is the only live one of its peer. -/
theorem OnePerPeer.spawned {daemon next : Daemon} (one : daemon.OnePerPeer) (key : Text)
    (session : Session)
    (alone : ∀ (index : Nat) (before : Session), daemon.sessions[index]? = some before →
      before.peer.pubkey = key → before.phase.isOver = true)
    (key_eq : session.peer.pubkey = key)
    (new_at : next.sessions[daemon.sessions.length]? = some session)
    (registered : next.peers.lookup key = some daemon.sessions.length)
    (lookup : ∀ other index, next.peers.lookup other = some index →
      daemon.peers.lookup other = some index ∨ other = key)
    (alive : ∀ (index : Nat) (now : Session), next.sessions[index]? = some now → now.phase.isOver = false →
      (∃ before, daemon.sessions[index]? = some before ∧ before.phase.isOver = false ∧
        before.peer.pubkey = now.peer.pubkey) ∨ index = daemon.sessions.length) :
    next.OnePerPeer := by
  have only : ∀ (index : Nat) (now : Session), next.sessions[index]? = some now →
      now.phase.isOver = false → now.peer.pubkey = key → index = daemon.sessions.length := by
    intro index now now_at now_alive now_key
    obtain ⟨before, before_at, before_alive, same_key⟩ | at_end := alive index now now_at now_alive
    · rw [alone index before before_at (same_key.trans now_key)] at before_alive
      cases before_alive
    · exact at_end
  refine ⟨?_, ?_⟩
  · intro first second now other now_at other_at now_alive other_alive same_key
    obtain ⟨before, before_at, before_alive, key_first⟩ | rfl := alive first now now_at now_alive
    · obtain ⟨before', before_at', before_alive', key_second⟩ | rfl :=
        alive second other other_at other_alive
      · exact one.unique first second before before' before_at before_at' before_alive
          before_alive' (by rw [key_first, key_second, same_key])
      · obtain rfl : session = other := by simpa [new_at] using other_at
        exact only first now now_at now_alive (same_key.trans key_eq)
    · obtain rfl : session = now := by simpa [new_at] using now_at
      exact (only second other other_at other_alive (same_key.symm.trans key_eq)).symm
  · intro other handle index now found now_at now_alive now_key
    by_cases here : other = key
    · subst here
      obtain rfl : daemon.sessions.length = handle := by simpa [registered] using found
      exact (only index now now_at now_alive now_key).symm
    · obtain before | same := lookup other handle found
      · obtain ⟨session', at_index, session_alive, same_key⟩ | rfl := alive index now now_at now_alive
        · exact one.handle other handle index session' before at_index session_alive
            (same_key.trans now_key)
        · obtain rfl : session = now := by simpa [new_at] using now_at
          exact (here (now_key.symm.trans key_eq)).elim
      · exact (here same).elim

theorem OnePerPeer.step {daemon next : Daemon} {action : DaemonAction} (one : daemon.OnePerPeer)
    (sound : ∀ session ∈ daemon.sessions, session.Sound)
    (alone : SpawnsAlone reader daemon action)
    (stepped : DaemonStep strip reader daemon action next) : next.OnePerPeer := by
  by_cases same_length : next.sessions.length = daemon.sessions.length
  · refine one.of_fewer (fun key index found => ?_) (fun index now now_at alive => ?_)
    · obtain before | ⟨at_end, name, data, text, peer, session, -, -, at_index, -⟩ :=
        lookup_of_step stepped found
      · exact before
      · obtain ⟨inside, -⟩ := List.getElem?_eq_some_iff.mp at_index
        omega
    · obtain before | at_end := alive_of_step stepped now_at alive
      · exact before
      · obtain ⟨inside, -⟩ := List.getElem?_eq_some_iff.mp now_at
        omega
  · have alive := fun index now => @alive_of_step strip reader daemon next action stepped index now
    cases stepped with
    | @spawned name data key text peer terminal unixSecs session brings missing created =>
        have fresh := Session.fresh_of_spawn created
        obtain ⟨dm, parsed, text_eq, dm_key, listed⟩ := brings
        have alone_here := alone key text peer ⟨dm, parsed, text_eq, dm_key, listed⟩
          (Nat.pos_iff_ne_zero.mp fresh.depth)
        refine one.spawned key session
          (fun index before before_at before_key =>
            over_of_missing one sound alone_here missing before_at before_key)
          ?_ ?_ (AList.lookup_insert _) (fun other index found => ?_) alive
        · rw [fresh.peer]
          exact Whitelist.pubkey_of_get listed
        · rw [← length_dropStale daemon key]
          simp
        · by_cases here : other = key
          · exact .inr here
          · rw [AList.lookup_insert_ne here] at found
            exact .inl (lookup_of_dropStale found)
    | refused brings => exact (same_length (length_dropStale _ _)).elim
    | panicked brings => exact (same_length (length_dropStale _ _)).elim
    | kept brings registered => exact (same_length (length_dropStale _ _)).elim
    | sent dispatching =>
        refine (same_length ?_).elim
        rw [send]
        split
        · rfl
        · exact List.length_modify _ _ _
    | @reloaded whitelist =>
        exact (same_length (length_foldl_revoke _ { daemon with whitelist })).elim
    | stopped => exact (same_length (length_dismissAll _ _ _)).elim
    | moved own at_index session_stepped => exact (same_length (List.length_set)).elim
    | _ => exact (same_length rfl).elim

end Daemon

end Loraterm
