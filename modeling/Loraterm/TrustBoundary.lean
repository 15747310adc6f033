import Loraterm.DaemonSteps

/-!
# The trust boundary

Only a peer of the current whitelist has a handle, and only texts of inbound direct messages from
whitelisted peers reach a session, each from its own peer.
-/

namespace Loraterm

open Utf8Text Mpsc Execution

/-- A key as the whitelist stores it: 64 lower-case hexadecimal digits. -/
def CanonicalKey (key : Text) : Prop :=
  key.length = 64 ∧ ∀ char ∈ key, isLowerHexDigit char = true

/-- The JSON of an inbound direct message from the peer of a key. -/
structure CarriesText (value : Json) (key text : Text) : Prop where
  direction : value.lowerField "direction".toList = "in".toList
  type : value.lowerField "type".toList = "dm".toList ∨ value.lowerField "type".toList = []
  sender : ∃ sender, value.requiredText "peer_pubkey_hex".toList = some sender ∧
    asciiLower sender = key
  text : value.optionalText "text".toList = some (some text)

namespace Daemon

theorem canonicalKey_of_senderKey {dm : DmEvent} {key : Text} (key_eq : senderKey dm = some key) :
    CanonicalKey key ∧ asciiLower dm.peerPubkeyHex = key := by
  simp only [senderKey] at key_eq
  split at key_eq
  · rename_i well_formed
    obtain rfl := Option.some.inj key_eq
    refine ⟨⟨?_, fun char member => ?_⟩, rfl⟩
    · rw [← byteLen_of_isHexDigit well_formed.2, well_formed.1]
    · have digit := List.all_eq_true.mp well_formed.2 char member
      obtain ⟨original, -, rfl⟩ := List.mem_map.mp member
      exact isLowerHexDigit_toLower digit
  · cases key_eq

variable (strip : List UInt8 → List UInt8) (reader : JsonReader)

/-- A frame of the schedule carried a text of a peer that the whitelist had at that step. -/
def FromFrame (start : Daemon) (schedule : List DaemonAction) (key text : Text) : Prop :=
  ∃ earlier name data terminal unixSecs later before value,
    schedule = earlier ++ .frame name data terminal unixSecs :: later ∧
      run (step strip reader) start earlier = some before ∧
        reader.fromStr data = some value ∧ CarriesText value key text ∧
          key ∈ before.whitelist.keys

/-- What the trust boundary keeps, after a schedule. -/
structure Guarded (start : Daemon) (schedule : List DaemonAction) (daemon : Daemon) : Prop where
  keys : ∀ key, key ∈ daemon.peers → CanonicalKey key ∧ key ∈ daemon.whitelist.keys
  texts : ∀ session ∈ daemon.sessions, ∀ text ∈ session.input.accepted,
    FromFrame strip reader start schedule session.peer.pubkey text
  /-- The text on its way to a session, too. -/
  dispatching : ∀ key text, daemon.phase = .dispatching key text →
    FromFrame strip reader start schedule key text

variable {strip : List UInt8 → List UInt8} {reader : JsonReader}

theorem FromFrame.append {start : Daemon} {schedule : List DaemonAction} {key text : Text}
    (origin : FromFrame strip reader start schedule key text) (action : DaemonAction) :
    FromFrame strip reader start (schedule ++ [action]) key text := by
  obtain ⟨earlier, name, data, terminal, unixSecs, later, before, value, rfl, rest⟩ := origin
  exact ⟨earlier, name, data, terminal, unixSecs, later ++ [action], before, value, by simp, rest⟩

theorem fromFrame_of_brings {start daemon : Daemon} {schedule : List DaemonAction}
    {name data key text : Text} {peer : ValidatedPeer} {terminal : Option Terminal} {unixSecs : Nat}
    (ran : run (step strip reader) start schedule = some daemon)
    (brings : Brings reader daemon name data key text peer) :
    FromFrame strip reader start (schedule ++ [.frame name data terminal unixSecs]) key text := by
  obtain ⟨dm, parsed, text_eq, key_eq, found⟩ := brings
  obtain ⟨value, read, inbound⟩ := inbound_of_frameEvent parsed
  obtain ⟨sender_eq, text_field⟩ := requiredText_of_fromValue inbound.fields
  obtain ⟨-, lowered⟩ := canonicalKey_of_senderKey key_eq
  refine ⟨schedule, name, data, terminal, unixSecs, [], daemon, value, rfl, ran, read, ?_,
    Whitelist.mem_keys_iff.mpr ⟨peer, found⟩⟩
  exact ⟨inbound.direction, inbound.type, ⟨_, sender_eq, lowered⟩, by rw [text_field, text_eq]⟩

/-- Only a successful reload changes the whitelist, and it drops the handles of removed keys. -/
theorem whitelist_of_step {daemon next : Daemon} {action : DaemonAction}
    (stepped : DaemonStep strip reader daemon action next) :
    next.whitelist = daemon.whitelist ∨
      ∃ whitelist, action = .reload (.ok whitelist) ∧ next = daemon.reload (.ok whitelist) := by
  cases stepped with
  | @reloaded whitelist => exact .inr ⟨whitelist, rfl, rfl⟩
  | refused brings => exact .inl (whitelist_dropStale _ _)
  | panicked brings => exact .inl (whitelist_dropStale _ _)
  | kept brings registered => exact .inl (whitelist_dropStale _ _)
  | spawned brings missing created => exact .inl (whitelist_dropStale _ _)
  | sent dispatching =>
      left
      rw [send]
      split
      · rfl
      · rfl
  | _ => exact .inl rfl

theorem keys_of_step {daemon next : Daemon} {action : DaemonAction}
    (stepped : DaemonStep strip reader daemon action next)
    (keys : ∀ key, key ∈ daemon.peers → CanonicalKey key ∧ key ∈ daemon.whitelist.keys) (key : Text)
    (registered : key ∈ next.peers) : CanonicalKey key ∧ key ∈ next.whitelist.keys := by
  obtain ⟨index, found⟩ := Option.isSome_iff_exists.mp (AList.lookup_isSome.mpr registered)
  obtain before | ⟨-, name, data, text, peer, session, brings, same, -⟩ :=
    lookup_of_step stepped found
  · obtain ⟨canonical, listed⟩ :=
      keys key (AList.lookup_isSome.mp (Option.isSome_iff_exists.mpr ⟨index, before⟩))
    refine ⟨canonical, ?_⟩
    obtain same | ⟨whitelist, rfl, rfl⟩ := whitelist_of_step stepped
    · rw [same]
      exact listed
    · rw [whitelist_reload]
      exact listed_of_lookup_reload listed found
  · obtain ⟨dm, -, -, key_eq, listed⟩ := brings
    rw [same]
    exact ⟨(canonicalKey_of_senderKey key_eq).1, Whitelist.mem_keys_iff.mpr ⟨peer, listed⟩⟩

theorem dispatching_of_step {daemon next : Daemon} {action : DaemonAction}
    (stepped : DaemonStep strip reader daemon action next) {key text : Text}
    (dispatching : next.phase = .dispatching key text) :
    daemon.phase = .dispatching key text ∨ ∃ name data terminal unixSecs peer,
      action = .frame name data terminal unixSecs ∧ Brings reader daemon name data key text peer := by
  cases stepped with
  | ignored => exact .inl dispatching
  | broken => exact .inl dispatching
  | refused brings =>
      rw [phase_dropStale] at dispatching
      exact .inl dispatching
  | panicked brings => cases dispatching
  | kept brings registered =>
      obtain ⟨rfl, rfl⟩ := DaemonPhase.dispatching.inj dispatching
      exact .inr ⟨_, _, _, _, _, rfl, brings⟩
  | spawned brings missing created =>
      obtain ⟨rfl, rfl⟩ := DaemonPhase.dispatching.inj dispatching
      exact .inr ⟨_, _, _, _, _, rfl, brings⟩
  | sent before =>
      rw [send] at dispatching
      split at dispatching <;> cases dispatching
  | @reloaded whitelist =>
      rw [phase_reload] at dispatching
      exact .inl dispatching
  | stopped => cases dispatching
  | finished => cases dispatching
  | moved own at_index session_stepped => exact .inl dispatching

theorem Guarded.step {start daemon next : Daemon} {schedule : List DaemonAction}
    {action : DaemonAction} (guarded : Guarded strip reader start schedule daemon)
    (registered : daemon.Registered) (ran : run (step strip reader) start schedule = some daemon)
    (stepped : DaemonStep strip reader daemon action next) :
    Guarded strip reader start (schedule ++ [action]) next where
  keys := keys_of_step stepped guarded.keys
  texts := by
    intro now member text accepted
    obtain ⟨index, now_at⟩ := List.mem_iff_getElem?.mp member
    obtain ⟨session, at_index, same | ⟨act, session_stepped, caused⟩⟩ | ⟨-, peer, terminal, _, new⟩ :=
      session_of_step stepped now_at
    · obtain rfl := same
      exact (guarded.texts now (List.mem_of_getElem? at_index) text accepted).append action
    · rw [Session.peer_of_step session_stepped]
      have before := guarded.texts session (List.mem_of_getElem? at_index)
      obtain kept | ⟨line, unixSecs, rfl, extended⟩ := Session.accepted_of_step session_stepped
      · rw [kept] at accepted
        exact (before text accepted).append action
      · rw [extended] at accepted
        obtain accepted | accepted := List.mem_append.mp accepted
        · exact (before text accepted).append action
        · obtain rfl := List.mem_singleton.mp accepted
          obtain ⟨-, key, dispatching, addressed⟩ := caused
          obtain ⟨addressee, addressee_at, key_eq⟩ := registered key index addressed
          obtain rfl : session = addressee := by simpa [at_index] using addressee_at
          rw [key_eq]
          exact (guarded.dispatching key text dispatching).append action
    · rw [(Session.fresh_of_spawn new).input, Channel.accepted_empty] at accepted
      cases accepted
  dispatching := by
    intro key text dispatching
    obtain before | ⟨name, data, terminal, unixSecs, peer, rfl, brings⟩ :=
      dispatching_of_step stepped dispatching
    · exact (guarded.dispatching key text before).append action
    · exact fromFrame_of_brings ran brings

theorem guarded_of_run {limits : LimitsConfig} {chunking : ChunkingConfig} {whitelist : Whitelist}
    {schedule : List DaemonAction} {daemon : Daemon}
    (ran : run (step strip reader) (new limits chunking whitelist) schedule = some daemon) :
    Guarded strip reader (new limits chunking whitelist) schedule daemon := by
  induction schedule using List.reverseRecOn generalizing daemon with
  | nil =>
      obtain rfl := Option.some.inj ran
      exact ⟨by simp [new], by simp [new], by simp [new]⟩
  | append_singleton schedule action ih =>
      obtain ⟨before, ran_before, stepped⟩ := run_concat_eq_some.mp ran
      exact (ih ran_before).step (registered_of_run ran_before) ran_before
        (daemonStep_of_step stepped)

/-- In every state of every run: handles are held for canonical keys of the current whitelist only,
every text a session's channel accepted came from an inbound direct message of that session's peer
while it was whitelisted, and a failed reload changes nothing. -/
theorem trust_boundary {limits : LimitsConfig} {chunking : ChunkingConfig} {whitelist : Whitelist}
    {schedule : List DaemonAction} {daemon : Daemon}
    (ran : run (step strip reader) (new limits chunking whitelist) schedule = some daemon) :
    (∀ key, key ∈ daemon.peers → CanonicalKey key ∧ key ∈ daemon.whitelist.keys) ∧
      (∀ session ∈ daemon.sessions, ∀ text ∈ session.input.accepted,
        FromFrame strip reader (new limits chunking whitelist) schedule session.peer.pubkey text) ∧
        ∀ error next, daemon.step strip reader (.reload (.error error)) = some next →
          next = daemon := by
  have guarded := guarded_of_run ran
  refine ⟨guarded.keys, guarded.texts, fun error next stepped => ?_⟩
  simp only [step] at stepped
  split at stepped
  · exact (Option.some.inj stepped).symm
  · cases stepped

/-! ## A sample peer -/

/-- The key of the sample peer. -/
def sampleKey : Text := List.replicate 64 'a'

/-- The sample peer. -/
def samplePeer : ValidatedPeer where
  pubkey := sampleKey
  nickname := none
  idleTimeout := none
  dmMaxChars := none

/-- A whitelist with the sample peer alone. -/
def sampleWhitelist : Whitelist where
  entries := [samplePeer]

/-- The data of a frame with the text `ls` from the sample peer. -/
def sampleData : Text :=
  "\x7b\"type\":\"dm\",\"direction\":\"in\",\"text\":\"ls\",\"peer_pubkey_hex\":\"".toList ++
    sampleKey ++ "\"\x7d".toList

/-- A reader that knows the sample data. -/
def sampleReader : JsonReader where
  fromStr data :=
    if data = sampleData then
      some (.object [("direction".toList, .string "in".toList),
        ("peer_pubkey_hex".toList, .string sampleKey), ("text".toList, .string "ls".toList),
        ("type".toList, .string "dm".toList)])
    else none
  debug := true

/-- The daemon with default settings and the sample whitelist. -/
def sample : Daemon := new .default .default sampleWhitelist

/-- The frame with the sample data arrives and a PTY can be opened. -/
def sampleFrame : DaemonAction :=
  .frame "message".toList sampleData (some { inSize := 4096, outSize := 4096 }) 0

/-- One message, a failed reload, and a reload that removes the peer. -/
theorem trust_boundary_sample :
    ∃ daemon, run (step id sampleReader) sample
        [sampleFrame, .send 0, .reload (.error (.read [] [])), .reload (.ok { entries := [] })] =
          some daemon ∧
      (∀ key, key ∈ daemon.peers → CanonicalKey key ∧ key ∈ daemon.whitelist.keys) ∧
        (∀ session ∈ daemon.sessions, ∀ text ∈ session.input.accepted,
          FromFrame id sampleReader sample
            [sampleFrame, .send 0, .reload (.error (.read [] [])), .reload (.ok { entries := [] })]
            session.peer.pubkey text) ∧
          ∀ error next, daemon.step id sampleReader (.reload (.error error)) = some next →
            next = daemon := by
  have completes : (run (step id sampleReader) sample
      [sampleFrame, .send 0, .reload (.error (.read [] [])),
        .reload (.ok { entries := [] })]).isSome = true := by decide +kernel
  obtain ⟨daemon, ran⟩ := Option.isSome_iff_exists.mp completes
  exact ⟨daemon, ran, trust_boundary ran⟩

end Daemon

end Loraterm
