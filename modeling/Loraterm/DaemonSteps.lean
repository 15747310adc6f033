import Loraterm.Daemon
import Loraterm.SessionSound

/-!
# What the daemon's steps can do

Every step of the daemon is one of eleven kinds.  The loops over handles in a reload and at the
end are described by what they do to a key and to a session.
-/

namespace Loraterm

open Utf8Text Mpsc Execution

namespace Session

@[simp] theorem dismiss_dismiss (session : Session) (first second : Reason) :
    (session.dismiss first).dismiss second = session.dismiss first := by
  simp only [dismiss]
  split
  · simp [Channel.dropSender]
  · simp [Channel.dropSender]

end Session

/-! ## Updated lists -/

section Lists

variable {α : Type*} {items : List α} {index place : Nat} {item : α}

theorem getElem?_concat_cases {last : α} (at_index : (items ++ [last])[index]? = some item) :
    items[index]? = some item ∨ (index = items.length ∧ last = item) := by
  rw [List.getElem?_append] at at_index
  split at at_index
  · exact .inl at_index
  · right
    rw [List.getElem?_singleton] at at_index
    split at at_index
    · exact ⟨by omega, Option.some.inj at_index⟩
    · cases at_index

theorem getElem?_modify_cases {change : α → α}
    (at_index : (items.modify place change)[index]? = some item) :
    ∃ before, items[index]? = some before ∧
      (item = before ∨ (place = index ∧ item = change before)) := by
  rw [List.getElem?_modify] at at_index
  obtain ⟨before, before_at, item_eq⟩ := Option.map_eq_some_iff.mp at_index
  refine ⟨before, before_at, ?_⟩
  split at item_eq
  · rename_i here
    exact .inr ⟨here, item_eq.symm⟩
  · exact .inl item_eq.symm

theorem getElem?_set_cases {new : α} (at_index : (items.set place new)[index]? = some item) :
    items[index]? = some item ∨ (place = index ∧ new = item) := by
  rw [List.getElem?_set] at at_index
  split at at_index
  · rename_i here
    split at at_index
    · exact .inr ⟨here, Option.some.inj at_index⟩
    · cases at_index
  · exact .inl at_index

end Lists

namespace Daemon

/-! ## Loops over handles -/

theorem getElem?_dismissAll (reason : Reason) (sessions : List Session) (indices : List Nat)
    (index : Nat) :
    (dismissAll reason sessions indices)[index]? =
      (sessions[index]?).map fun session =>
        if index ∈ indices then session.dismiss reason else session := by
  induction indices generalizing sessions with
  | nil => simp [dismissAll]
  | cons first indices ih =>
      have unfolded : dismissAll reason sessions (first :: indices) =
          dismissAll reason (sessions.modify first (·.dismiss reason)) indices := rfl
      rw [unfolded, ih, List.getElem?_modify]
      cases sessions[index]? with
      | none => rfl
      | some session =>
          by_cases here : first = index
          · simp [here]
          · simp [here, Ne.symm here]

@[simp] theorem length_dismissAll (reason : Reason) (sessions : List Session)
    (indices : List Nat) : (dismissAll reason sessions indices).length = sessions.length := by
  induction indices generalizing sessions with
  | nil => rfl
  | cons first indices ih =>
      calc
        (dismissAll reason sessions (first :: indices)).length =
            (sessions.modify first (·.dismiss reason)).length := ih _
        _ = sessions.length := List.length_modify _ _ _

/-- What telling the peers of some keys does. -/
structure Revoked (keys : List Text) (daemon next : Daemon) : Prop where
  same : next = { daemon with peers := next.peers, sessions := next.sessions }
  lookup : ∀ key,
    next.peers.lookup key = if key ∈ keys then none else daemon.peers.lookup key
  session : ∀ index,
    (next.sessions[index]? = daemon.sessions[index]? ∧
        ∀ key ∈ keys, daemon.peers.lookup key ≠ some index) ∨
      (next.sessions[index]? = (daemon.sessions[index]?).map (·.dismiss .revoked) ∧
        ∃ key ∈ keys, daemon.peers.lookup key = some index)

theorem revoked_revoke (daemon : Daemon) (key : Text) : Revoked [key] daemon (daemon.revoke key) := by
  rw [revoke]
  cases registered : daemon.peers.lookup key with
  | none =>
      refine ⟨rfl, fun other => ?_, fun index => .inl ⟨rfl, ?_⟩⟩
      · by_cases here : other = key
        · subst here
          simp [registered]
        · simp [here]
      · simp [registered]
  | some number =>
      refine ⟨rfl, fun other => ?_, fun index => ?_⟩
      · by_cases here : other = key
        · subst here
          simp
        · simp [here, AList.lookup_erase_ne here]
      · by_cases here : number = index
        · exact .inr ⟨by simp [here], key, List.mem_cons_self, by rw [registered, here]⟩
        · exact .inl ⟨by simp [here], by simp [registered, here]⟩

theorem Revoked.cons {first : Text} {keys : List Text} {daemon middle next : Daemon}
    (head : Revoked [first] daemon middle) (tail : Revoked keys middle next) :
    Revoked (first :: keys) daemon next := by
  have earlier : ∀ key index, middle.peers.lookup key = some index →
      daemon.peers.lookup key = some index := by
    intro key index found
    rw [head.lookup] at found
    split at found
    · cases found
    · exact found
  have untouched : ∀ key index, daemon.peers.lookup key = some index →
      key = first ∨ middle.peers.lookup key = some index := by
    intro key index found
    rw [head.lookup]
    by_cases here : key = first
    · exact .inl here
    · right
      simp [here, found]
  refine ⟨?_, fun key => ?_, fun index => ?_⟩
  · rw [tail.same, head.same]
  · rw [tail.lookup, head.lookup]
    by_cases here : key = first
    · simp [here]
    · simp [here]
  · obtain ⟨kept, others⟩ | ⟨told, key, member, registered⟩ := tail.session index
    · obtain ⟨kept_first, other⟩ | ⟨told_first, key, member, registered⟩ := head.session index
      · left
        refine ⟨kept.trans kept_first, fun key member found => ?_⟩
        obtain rfl | found := untouched key index found
        · exact other key List.mem_cons_self (by assumption)
        · obtain rfl | member := List.mem_cons.mp member
          · exact other key List.mem_cons_self (earlier key index found)
          · exact others key member found
      · right
        obtain rfl := List.mem_singleton.mp member
        exact ⟨kept.trans told_first, key, List.mem_cons_self, registered⟩
    · right
      refine ⟨?_, key, List.mem_cons_of_mem _ member, earlier key index registered⟩
      rw [told]
      obtain ⟨kept_first, -⟩ | ⟨told_first, -⟩ := head.session index
      · rw [kept_first]
      · rw [told_first]
        cases daemon.sessions[index]? with
        | none => rfl
        | some session => simp

/-- A reload tells the peers of all removed keys and no others. -/
theorem revoked_foldl (keys : List Text) (daemon : Daemon) :
    Revoked keys daemon (keys.foldl revoke daemon) := by
  induction keys generalizing daemon with
  | nil => exact ⟨rfl, by simp, fun index => .inl ⟨rfl, by simp⟩⟩
  | cons first keys ih => exact (revoked_revoke daemon first).cons (ih (daemon.revoke first))

@[simp] theorem length_foldl_revoke (keys : List Text) (daemon : Daemon) :
    (keys.foldl revoke daemon).sessions.length = daemon.sessions.length := by
  induction keys generalizing daemon with
  | nil => rfl
  | cons first keys ih =>
      rw [List.foldl_cons, ih, revoke]
      split
      · rfl
      · exact List.length_modify _ _ _

/-! ## Kinds of steps -/

theorem dropStale_cases (daemon : Daemon) (pubkey : Text) :
    (daemon.dropStale pubkey = daemon ∧ ∀ index session,
        daemon.peers.lookup pubkey = some index → daemon.sessions[index]? = some session →
          session.input.receiving = true) ∨
      ∃ index session, daemon.peers.lookup pubkey = some index ∧
        daemon.sessions[index]? = some session ∧ session.input.receiving = false ∧
          daemon.dropStale pubkey =
            { daemon with
              peers := daemon.peers.erase pubkey
              sessions := daemon.sessions.modify index Session.forget } := by
  rw [dropStale]
  cases registered : daemon.peers.lookup pubkey with
  | none => exact .inl ⟨rfl, by simp⟩
  | some index =>
      cases at_index : daemon.sessions[index]? with
      | none =>
          refine .inl ⟨by simp [at_index], ?_⟩
          rintro _ _ ⟨⟩ found
          simp [at_index] at found
      | some session =>
          cases receiving : session.input.receiving with
          | true =>
              refine .inl ⟨by simp [at_index, Channel.isClosed, receiving], ?_⟩
              rintro _ _ ⟨⟩ found
              obtain rfl : session = _ := by simpa [at_index] using found
              exact receiving
          | false =>
              exact .inr ⟨index, session, rfl, at_index, receiving, by
                simp [at_index, Channel.isClosed, receiving]⟩

/-- A frame brings a text of a peer the whitelist has. -/
def Brings (reader : JsonReader) (daemon : Daemon) (name data pubkey text : Text)
    (peer : ValidatedPeer) : Prop :=
  ∃ dm, frameEvent reader name data = some (.dmReceived dm) ∧ dm.text = some text ∧
    senderKey dm = some pubkey ∧ daemon.whitelist.get pubkey = some peer

/-- The kinds of steps of a daemon. -/
inductive DaemonStep (strip : List UInt8 → List UInt8) (reader : JsonReader) (daemon : Daemon) :
    DaemonAction → Daemon → Prop
  | ignored {action : DaemonAction} : DaemonStep strip reader daemon action daemon
  | broken {name data : Text} {terminal : Option Terminal} {unixSecs : Nat} :
      DaemonStep strip reader daemon (.frame name data terminal unixSecs)
        { daemon with streaming := false }
  | refused {name data pubkey text : Text} {peer : ValidatedPeer} {unixSecs : Nat}
      (brings : Brings reader daemon name data pubkey text peer) :
      DaemonStep strip reader daemon (.frame name data none unixSecs) (daemon.dropStale pubkey)
  | panicked {name data pubkey text : Text} {peer : ValidatedPeer} {terminal : Terminal}
      {unixSecs : Nat} (brings : Brings reader daemon name data pubkey text peer) :
      DaemonStep strip reader daemon (.frame name data (some terminal) unixSecs)
        { daemon.dropStale pubkey with phase := .panicked }
  | kept {name data pubkey text : Text} {peer : ValidatedPeer} {terminal : Option Terminal}
      {unixSecs index : Nat} (brings : Brings reader daemon name data pubkey text peer)
      (registered : (daemon.dropStale pubkey).peers.lookup pubkey = some index) :
      DaemonStep strip reader daemon (.frame name data terminal unixSecs)
        { daemon.dropStale pubkey with phase := .dispatching pubkey text }
  | spawned {name data pubkey text : Text} {peer : ValidatedPeer} {terminal : Terminal}
      {unixSecs : Nat} {session : Session}
      (brings : Brings reader daemon name data pubkey text peer)
      (missing : (daemon.dropStale pubkey).peers.lookup pubkey = none)
      (created : Session.spawn peer daemon.limits daemon.chunking
        (Pty.spawn terminal.inSize terminal.outSize) unixSecs = some session) :
      DaemonStep strip reader daemon (.frame name data (some terminal) unixSecs)
        { daemon.dropStale pubkey with
          peers := (daemon.dropStale pubkey).peers.insert pubkey daemon.sessions.length
          sessions := (daemon.dropStale pubkey).sessions ++ [session]
          phase := .dispatching pubkey text }
  | sent {pubkey text : Text} {unixSecs : Nat} (dispatching : daemon.phase = .dispatching pubkey text) :
      DaemonStep strip reader daemon (.send unixSecs) (daemon.send pubkey text unixSecs)
  | reloaded {whitelist : Whitelist} :
      DaemonStep strip reader daemon (.reload (.ok whitelist)) (daemon.reload (.ok whitelist))
  | stopped : DaemonStep strip reader daemon .stop daemon.stop
  | finished (closing : daemon.phase = .closing) :
      DaemonStep strip reader daemon .finish { daemon with phase := .returned }
  | moved {index : Nat} {action : SessionAction} {session next : Session}
      (own : action.own = true) (at_index : daemon.sessions[index]? = some session)
      (stepped : session.step strip action = some next) :
      DaemonStep strip reader daemon (.session index action)
        { daemon with sessions := daemon.sessions.set index next }

variable {strip : List UInt8 → List UInt8} {reader : JsonReader}

@[simp] theorem limits_dropStale (daemon : Daemon) (pubkey : Text) :
    (daemon.dropStale pubkey).limits = daemon.limits := by
  obtain ⟨same, -⟩ | ⟨_, _, -, -, -, same⟩ := daemon.dropStale_cases pubkey <;> rw [same]

@[simp] theorem chunking_dropStale (daemon : Daemon) (pubkey : Text) :
    (daemon.dropStale pubkey).chunking = daemon.chunking := by
  obtain ⟨same, -⟩ | ⟨_, _, -, -, -, same⟩ := daemon.dropStale_cases pubkey <;> rw [same]

@[simp] theorem whitelist_dropStale (daemon : Daemon) (pubkey : Text) :
    (daemon.dropStale pubkey).whitelist = daemon.whitelist := by
  obtain ⟨same, -⟩ | ⟨_, _, -, -, -, same⟩ := daemon.dropStale_cases pubkey <;> rw [same]

@[simp] theorem length_dropStale (daemon : Daemon) (pubkey : Text) :
    (daemon.dropStale pubkey).sessions.length = daemon.sessions.length := by
  obtain ⟨same, -⟩ | ⟨_, _, -, -, -, same⟩ := daemon.dropStale_cases pubkey <;> rw [same]
  rw [List.length_modify]

@[simp] theorem phase_dropStale (daemon : Daemon) (pubkey : Text) :
    (daemon.dropStale pubkey).phase = daemon.phase := by
  obtain ⟨same, -⟩ | ⟨_, _, -, -, -, same⟩ := daemon.dropStale_cases pubkey <;> rw [same]

@[simp] theorem phase_reload (daemon : Daemon) (whitelist : Whitelist) :
    (daemon.reload (.ok whitelist)).phase = daemon.phase := by
  have same := (revoked_foldl (diffWhitelist daemon.whitelist whitelist).removed
    { daemon with whitelist }).same
  have phase_eq := congrArg Daemon.phase same
  exact phase_eq

theorem DaemonStep.ensure {daemon : Daemon} {name data pubkey text : Text} {peer : ValidatedPeer}
    (brings : Brings reader daemon name data pubkey text peer) (terminal : Option Terminal)
    (unixSecs : Nat) :
    DaemonStep strip reader daemon (.frame name data terminal unixSecs)
      ((daemon.dropStale pubkey).ensure peer pubkey text terminal unixSecs) := by
  simp only [Daemon.ensure]
  split
  · rename_i registered
    exact .kept brings registered
  · rename_i missing
    split
    · exact .refused brings
    · split
      · exact .panicked brings
      · rename_i session created
        rw [limits_dropStale, chunking_dropStale] at created
        rw [length_dropStale]
        exact .spawned brings missing created

theorem DaemonStep.frame (daemon : Daemon) (name data : Text) (terminal : Option Terminal)
    (unixSecs : Nat) :
    DaemonStep strip reader daemon (.frame name data terminal unixSecs)
      (daemon.frame reader name data terminal unixSecs) := by
  rw [Daemon.frame]
  split
  · exact .broken
  · rename_i dm parsed
    rw [dispatch]
    split
    · exact .ignored
    · rename_i text text_eq
      split
      · exact .ignored
      · rename_i pubkey key_eq
        split
        · exact .ignored
        · rename_i peer found
          exact .ensure ⟨dm, parsed, text_eq, key_eq, found⟩ terminal unixSecs
  · exact .ignored

theorem daemonStep_of_step {daemon next : Daemon} {action : DaemonAction}
    (stepped : daemon.step strip reader action = some next) :
    DaemonStep strip reader daemon action next := by
  cases action with
  | frame name data terminal unixSecs =>
      simp only [step] at stepped
      split at stepped
      · obtain rfl := Option.some.inj stepped
        exact .frame daemon name data terminal unixSecs
      · cases stepped
  | send unixSecs =>
      simp only [step] at stepped
      split at stepped
      · rename_i dispatching
        obtain rfl := Option.some.inj stepped
        exact .sent dispatching
      · cases stepped
  | reload loaded =>
      simp only [step] at stepped
      split at stepped
      · obtain rfl := Option.some.inj stepped
        cases loaded with
        | error error => exact .ignored
        | ok whitelist => exact .reloaded
      · cases stepped
  | stop =>
      simp only [step] at stepped
      split at stepped
      · obtain rfl := Option.some.inj stepped
        exact .stopped
      · cases stepped
  | finish =>
      simp only [step] at stepped
      split at stepped
      · rename_i closing
        obtain rfl := Option.some.inj stepped
        exact .finished closing
      · cases stepped
  | session index action =>
      simp only [step] at stepped
      split at stepped
      · rename_i allowed
        obtain ⟨session, at_index, stepped⟩ := Option.bind_eq_some_iff.mp stepped
        obtain ⟨moved, session_stepped, rfl⟩ := Option.map_eq_some_iff.mp stepped
        exact .moved allowed.1 at_index session_stepped
      · cases stepped

/-! ## One session through the daemon's steps -/

theorem session_of_dropStale {daemon : Daemon} {pubkey : Text} {index : Nat} {now : Session}
    (at_index : (daemon.dropStale pubkey).sessions[index]? = some now) :
    ∃ session, daemon.sessions[index]? = some session ∧
      (now = session ∨ (now = session.forget ∧ session.input.receiving = false)) := by
  obtain ⟨same, -⟩ | ⟨stale, session, -, stale_at, closed, same⟩ := daemon.dropStale_cases pubkey
  · rw [same] at at_index
    exact ⟨now, at_index, .inl rfl⟩
  · rw [same] at at_index
    obtain ⟨before, before_at, unchanged | ⟨rfl, forgotten⟩⟩ := getElem?_modify_cases at_index
    · exact ⟨before, before_at, .inl unchanged⟩
    · obtain rfl : session = before := by simpa [stale_at] using before_at
      exact ⟨session, before_at, .inr ⟨forgotten, closed⟩⟩

/-- What a step of the daemon does to a session. -/
def Causes (daemon : Daemon) (action : DaemonAction) (index : Nat) : SessionAction → Prop
  | .deliver line unixSecs =>
      action = .send unixSecs ∧ ∃ key, daemon.phase = .dispatching key line ∧
        daemon.peers.lookup key = some index
  | .dismiss reason =>
      (∃ key, daemon.peers.lookup key = some index) ∧
        (reason = .revoked ∨ reason = .shutdown ∧ action = .stop)
  | .forget =>
      ∃ session, daemon.sessions[index]? = some session ∧ session.input.receiving = false
  | own => action = .session index own

/-- A session at a step of the daemon makes at most one step of its own, or is new. -/
theorem session_of_step {daemon next : Daemon} {action : DaemonAction}
    (stepped : DaemonStep strip reader daemon action next) {index : Nat} {now : Session}
    (at_index : next.sessions[index]? = some now) :
    (∃ session, daemon.sessions[index]? = some session ∧
        (now = session ∨
          ∃ act, session.step strip act = some now ∧ daemon.Causes action index act)) ∨
      (index = daemon.sessions.length ∧ ∃ peer, ∃ terminal : Terminal, ∃ unixSecs,
        Session.spawn peer daemon.limits daemon.chunking
          (Pty.spawn terminal.inSize terminal.outSize) unixSecs = some now) := by
  have stale : ∀ {pubkey : Text}, (daemon.dropStale pubkey).sessions[index]? = some now →
      ∃ session, daemon.sessions[index]? = some session ∧
        (now = session ∨
          ∃ act, session.step strip act = some now ∧ daemon.Causes action index act) := by
    intro pubkey at_index
    obtain ⟨session, before_at, same | ⟨forgotten, closed⟩⟩ := session_of_dropStale at_index
    · exact ⟨session, before_at, .inl same⟩
    · exact ⟨session, before_at,
        .inr ⟨.forget, by rw [forgotten]; rfl, session, before_at, closed⟩⟩
  cases stepped with
  | ignored => exact .inl ⟨now, at_index, .inl rfl⟩
  | broken => exact .inl ⟨now, at_index, .inl rfl⟩
  | refused brings => exact .inl (stale at_index)
  | panicked brings => exact .inl (stale at_index)
  | kept brings registered => exact .inl (stale at_index)
  | @spawned _ _ pubkey _ peer terminal unixSecs session brings missing created =>
      obtain before_at | ⟨at_end, rfl⟩ := getElem?_concat_cases at_index
      · exact .inl (stale before_at)
      · exact .inr ⟨by rw [at_end, length_dropStale], peer, terminal, unixSecs, created⟩
  | @sent pubkey text unixSecs dispatching =>
      left
      simp only [send] at at_index
      split at at_index
      · exact ⟨now, at_index, .inl rfl⟩
      · rename_i addressed registered
        obtain ⟨session, before_at, unchanged | ⟨rfl, delivered⟩⟩ := getElem?_modify_cases at_index
        · exact ⟨session, before_at, .inl unchanged⟩
        · exact ⟨session, before_at,
            .inr ⟨.deliver text unixSecs, by rw [delivered]; rfl, rfl, pubkey, dispatching, registered⟩⟩
  | @reloaded whitelist =>
      left
      have revoked := revoked_foldl (diffWhitelist daemon.whitelist whitelist).removed
        { daemon with whitelist }
      rw [reload] at at_index
      obtain ⟨kept, -⟩ | ⟨told, key, -, registered⟩ := revoked.session index
      · rw [kept] at at_index
        exact ⟨now, at_index, .inl rfl⟩
      · rw [told] at at_index
        obtain ⟨session, before_at, rfl⟩ := Option.map_eq_some_iff.mp at_index
        exact ⟨session, before_at, .inr ⟨.dismiss .revoked, rfl, ⟨key, registered⟩, .inl rfl⟩⟩
  | stopped =>
      left
      simp only [stop, getElem?_dismissAll] at at_index
      obtain ⟨session, before_at, now_eq⟩ := Option.map_eq_some_iff.mp at_index
      refine ⟨session, before_at, ?_⟩
      split at now_eq
      · rename_i handled
        obtain ⟨⟨key, number⟩, entry, rfl⟩ := List.mem_map.mp handled
        have registered : daemon.peers.lookup key = some number := AList.mem_lookup_iff.mpr entry
        exact .inr ⟨.dismiss .shutdown, by rw [← now_eq]; rfl, ⟨key, registered⟩, .inr ⟨rfl, rfl⟩⟩
      · exact .inl now_eq.symm
  | finished => exact .inl ⟨now, at_index, .inl rfl⟩
  | @moved number act session moved own number_at session_stepped =>
      left
      obtain unchanged | ⟨rfl, rfl⟩ := getElem?_set_cases at_index
      · exact ⟨now, unchanged, .inl rfl⟩
      · refine ⟨session, number_at, .inr ⟨act, session_stepped, ?_⟩⟩
        cases act <;> first | rfl | cases own

/-- What holds of every session the daemon spawns and is preserved by the steps of a session is
preserved of all sessions by every step of the daemon. -/
theorem session_invariant {Invariant : Session → Prop} {daemon next : Daemon}
    {action : DaemonAction}
    (spawned : ∀ peer (terminal : Terminal) unixSecs session,
      Session.spawn peer daemon.limits daemon.chunking
        (Pty.spawn terminal.inSize terminal.outSize) unixSecs = some session → Invariant session)
    (preserved : ∀ session action next, Invariant session →
      session.step strip action = some next → Invariant next)
    (holds : ∀ session ∈ daemon.sessions, Invariant session)
    (stepped : DaemonStep strip reader daemon action next) :
    ∀ session ∈ next.sessions, Invariant session := by
  intro session member
  obtain ⟨index, at_index⟩ := List.mem_iff_getElem?.mp member
  obtain ⟨before, before_at, same | ⟨act, session_stepped, -⟩⟩ | ⟨-, peer, terminal, unixSecs, new⟩ :=
    session_of_step stepped at_index
  · rw [same]
    exact holds before (List.mem_of_getElem? before_at)
  · exact preserved before act session (holds before (List.mem_of_getElem? before_at))
      session_stepped
  · exact spawned peer terminal unixSecs session new

theorem length_le_of_step {daemon next : Daemon} {action : DaemonAction}
    (stepped : DaemonStep strip reader daemon action next) :
    daemon.sessions.length ≤ next.sessions.length := by
  cases stepped with
  | spawned brings missing created => simp
  | sent dispatching =>
      rw [send]
      split
      · exact Nat.le_refl _
      · simp
  | @reloaded whitelist => exact (length_foldl_revoke _ { daemon with whitelist }).ge
  | stopped => exact (length_dismissAll _ _ _).ge
  | _ => simp

/-- A session goes on through a step of the daemon. -/
theorem session_continues {daemon next : Daemon} {action : DaemonAction}
    (stepped : DaemonStep strip reader daemon action next) {index : Nat} {session : Session}
    (at_index : daemon.sessions[index]? = some session) :
    ∃ now, next.sessions[index]? = some now ∧
      (now = session ∨
        ∃ act, session.step strip act = some now ∧ daemon.Causes action index act) := by
  obtain ⟨inside, -⟩ := List.getElem?_eq_some_iff.mp at_index
  have still := length_le_of_step stepped
  obtain ⟨now, now_at⟩ : ∃ now, next.sessions[index]? = some now :=
    ⟨next.sessions[index], List.getElem?_eq_getElem (by omega)⟩
  obtain ⟨before, before_at, outcome⟩ | ⟨at_end, -⟩ := session_of_step stepped now_at
  · obtain rfl : session = before := by simpa [at_index] using before_at
    exact ⟨now, now_at, outcome⟩
  · omega

/-! ## The registry -/

theorem lookup_of_dropStale {daemon : Daemon} {pubkey key : Text} {index : Nat}
    (registered : (daemon.dropStale pubkey).peers.lookup key = some index) :
    daemon.peers.lookup key = some index := by
  obtain ⟨same, -⟩ | ⟨_, _, -, -, -, same⟩ := daemon.dropStale_cases pubkey
  · rw [same] at registered
    exact registered
  · rw [same] at registered
    by_cases here : key = pubkey
    · subst here
      simp at registered
    · rw [AList.lookup_erase_ne here] at registered
      exact registered

theorem lookup_reload (daemon : Daemon) (whitelist : Whitelist) (key : Text) :
    (daemon.reload (.ok whitelist)).peers.lookup key =
      if key ∈ (diffWhitelist daemon.whitelist whitelist).removed then none
      else daemon.peers.lookup key :=
  (revoked_foldl _ { daemon with whitelist }).lookup key

/-- A reload leaves the handle of a peer that stays listed. -/
theorem lookup_reload_of_listed {daemon : Daemon} {whitelist : Whitelist} {pubkey : Text}
    (listed : pubkey ∈ whitelist.keys) :
    (daemon.reload (.ok whitelist)).peers.lookup pubkey = daemon.peers.lookup pubkey := by
  rw [lookup_reload, if_neg]
  exact fun gone => (mem_removed_iff.mp gone).2 listed

/-- The handles a reload leaves are those of peers that stay listed. -/
theorem listed_of_lookup_reload {daemon : Daemon} {whitelist : Whitelist} {pubkey : Text}
    {index : Nat} (listed : pubkey ∈ daemon.whitelist.keys)
    (registered : (daemon.reload (.ok whitelist)).peers.lookup pubkey = some index) :
    pubkey ∈ whitelist.keys := by
  by_contra unlisted
  rw [lookup_reload, if_pos (mem_removed_iff.mpr ⟨listed, unlisted⟩)] at registered
  cases registered

/-- A reload changes the whitelist, the registry and the sessions alone. -/
theorem same_reload (daemon : Daemon) (whitelist : Whitelist) :
    daemon.reload (.ok whitelist) =
      { daemon with
        whitelist
        peers := (daemon.reload (.ok whitelist)).peers
        sessions := (daemon.reload (.ok whitelist)).sessions } :=
  (revoked_foldl _ { daemon with whitelist }).same

theorem whitelist_reload (daemon : Daemon) (whitelist : Whitelist) :
    (daemon.reload (.ok whitelist)).whitelist = whitelist :=
  congrArg Daemon.whitelist (same_reload daemon whitelist)

/-- The configuration is read once. -/
theorem configuration_of_step {daemon next : Daemon} {action : DaemonAction}
    (stepped : DaemonStep strip reader daemon action next) :
    next.limits = daemon.limits ∧ next.chunking = daemon.chunking := by
  have stale (pubkey : Text) : (daemon.dropStale pubkey).limits = daemon.limits ∧
      (daemon.dropStale pubkey).chunking = daemon.chunking :=
    ⟨limits_dropStale daemon pubkey, chunking_dropStale daemon pubkey⟩
  cases stepped with
  | refused brings => exact stale _
  | panicked brings => exact stale _
  | kept brings registered => exact stale _
  | spawned brings missing created => exact stale _
  | sent dispatching =>
      rw [send]
      split <;> exact ⟨rfl, rfl⟩
  | @reloaded whitelist =>
      rw [same_reload]
      exact ⟨rfl, rfl⟩
  | _ => exact ⟨rfl, rfl⟩

theorem limits_of_step {daemon next : Daemon} {action : DaemonAction}
    (stepped : DaemonStep strip reader daemon action next) : next.limits = daemon.limits :=
  (configuration_of_step stepped).1

theorem chunking_of_step {daemon next : Daemon} {action : DaemonAction}
    (stepped : DaemonStep strip reader daemon action next) : next.chunking = daemon.chunking :=
  (configuration_of_step stepped).2

/-- A handle in the registry was there before, or is that of a session just spawned. -/
theorem lookup_of_step {daemon next : Daemon} {action : DaemonAction}
    (stepped : DaemonStep strip reader daemon action next) {key : Text} {index : Nat}
    (registered : next.peers.lookup key = some index) :
    daemon.peers.lookup key = some index ∨
      (index = daemon.sessions.length ∧ ∃ name data text peer session,
        Brings reader daemon name data key text peer ∧ next.whitelist = daemon.whitelist ∧
          next.sessions[index]? = some session ∧ session.peer = peer) := by
  cases stepped with
  | ignored => exact .inl registered
  | broken => exact .inl registered
  | refused brings => exact .inl (lookup_of_dropStale registered)
  | panicked brings => exact .inl (lookup_of_dropStale registered)
  | kept brings _ => exact .inl (lookup_of_dropStale registered)
  | @spawned name data pubkey text peer terminal unixSecs session brings missing created =>
      by_cases here : key = pubkey
      · subst here
        right
        rw [AList.lookup_insert] at registered
        obtain rfl := Option.some.inj registered
        refine ⟨rfl, name, data, text, peer, session, brings, whitelist_dropStale _ _, ?_, ?_⟩
        · rw [← length_dropStale daemon key]
          simp
        · exact (Session.fresh_of_spawn created).peer
      · rw [AList.lookup_insert_ne here] at registered
        exact .inl (lookup_of_dropStale registered)
  | sent dispatching =>
      left
      rw [send] at registered
      split at registered
      · exact registered
      · exact registered
  | reloaded =>
      left
      rw [lookup_reload] at registered
      split at registered
      · cases registered
      · exact registered
  | stopped => cases registered
  | finished => exact .inl registered
  | moved own number_at session_stepped => exact .inl registered

/-- Every handle belongs to a session of the peer it is registered for. -/
def Registered (daemon : Daemon) : Prop :=
  ∀ key index, daemon.peers.lookup key = some index →
    ∃ session, daemon.sessions[index]? = some session ∧ session.peer.pubkey = key

theorem Registered.step {daemon next : Daemon} {action : DaemonAction}
    (holds : daemon.Registered) (stepped : DaemonStep strip reader daemon action next) :
    next.Registered := by
  intro key index registered
  obtain before | ⟨-, name, data, text, peer, session, ⟨dm, -, -, -, found⟩, -, at_index, rfl⟩ :=
    lookup_of_step stepped registered
  · obtain ⟨session, at_index, key_eq⟩ := holds key index before
    obtain ⟨now, now_at, same | ⟨act, session_stepped, -⟩⟩ := session_continues stepped at_index
    · exact ⟨now, now_at, by rw [same, key_eq]⟩
    · exact ⟨now, now_at, by rw [Session.peer_of_step session_stepped, key_eq]⟩
  · exact ⟨session, at_index, Whitelist.pubkey_of_get found⟩

theorem registered_of_run {limits : LimitsConfig} {chunking : ChunkingConfig}
    {whitelist : Whitelist} {daemon : Daemon} {schedule : List DaemonAction}
    (ran : run (step strip reader) (new limits chunking whitelist) schedule = some daemon) :
    daemon.Registered := by
  have initially : (new limits chunking whitelist).Registered := by
    intro key index registered
    cases registered
  exact invariant_of_run
    (fun _ _ _ holds stepped => Registered.step holds (daemonStep_of_step stepped)) ran initially

theorem sound_of_step {daemon next : Daemon} {action : DaemonAction}
    (sound : ∀ session ∈ daemon.sessions, session.Sound)
    (stepped : DaemonStep strip reader daemon action next) :
    ∀ session ∈ next.sessions, session.Sound :=
  session_invariant
    (fun _ _ _ _ created => Session.sound_spawn (Pty.sound_spawn _ _) created)
    (fun _ _ _ sound stepped => Session.Sound.step sound stepped) sound stepped

end Daemon

end Loraterm
