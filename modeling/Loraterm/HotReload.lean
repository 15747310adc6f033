import Loraterm.ConfigSafety
import Loraterm.SendRate
import Loraterm.WhitelistLoad

/-!
# Reloads and running sessions

A session copies its whitelist entry when it is spawned.  A reload tells the peers it removed and
no others, so a running session keeps the idle timeout and the chunk size it started with, whatever
a later whitelist says.
-/

namespace Loraterm

open Utf8Text Mpsc Execution

/-- The values a session takes from its whitelist entry or from the daemon's configuration. -/
structure PeerSettings where
  idleTimeout : Nat
  dmMaxChars : Nat
  deriving DecidableEq, Repr

/-- An entry's own values, else those of the configuration. -/
def ValidatedPeer.settings (peer : ValidatedPeer) (limits : LimitsConfig)
    (chunking : ChunkingConfig) : PeerSettings where
  idleTimeout := peer.idleTimeout.getD limits.idleTimeout
  dmMaxChars := peer.dmMaxChars.getD chunking.dmMaxChars

/-- What a whitelist gives a peer. -/
def Whitelist.settings (whitelist : Whitelist) (limits : LimitsConfig) (chunking : ChunkingConfig)
    (pubkey : Text) : Option PeerSettings :=
  (whitelist.get pubkey).map (·.settings limits chunking)

/-- In a loaded whitelist a peer has the values of its entry, else the defaults of the file, else
those of the configuration. -/
theorem Whitelist.settings_of_load {parseToml : Text → Except Text WhitelistFile}
    {path contents : Text} {file : WhitelistFile} {whitelist : Whitelist}
    (parsed : parseToml contents = .ok file)
    (loaded : load parseToml path (.ok contents) = .ok whitelist) (limits : LimitsConfig)
    (chunking : ChunkingConfig) {entry : PeerEntry} (listed : entry ∈ file.peers) :
    whitelist.settings limits chunking entry.key = some
      { idleTimeout := entry.idleTimeout.getD (file.defaultIdleTimeout.getD limits.idleTimeout)
        dmMaxChars := entry.dmMaxChars.getD (file.defaultDmMaxChars.getD chunking.dmMaxChars) } := by
  obtain ⟨-, returned⟩ | ⟨error, -, stopped⟩ := @load_cases parseToml path contents file parsed
  · have distinct := nodup_keys_of_load loaded
    obtain rfl := Except.ok.inj (returned.symm.trans loaded)
    have found : get { entries := file.peers.map (·.validated file) } entry.key =
        some (entry.validated file) :=
      (get_eq_some_iff distinct).mpr ⟨List.mem_map_of_mem listed, rfl⟩
    rw [settings, found, Option.map_some]
    cases own_timeout : entry.idleTimeout <;> cases own_chars : entry.dmMaxChars <;>
      simp [ValidatedPeer.settings, PeerEntry.validated, own_timeout, own_chars]
  · rw [stopped] at loaded
    cases loaded

namespace Session

variable {strip : List UInt8 → List UInt8}

/-- The values a session runs with. -/
def settings (session : Session) : PeerSettings where
  idleTimeout := session.idleTimeout
  dmMaxChars := session.chunker.opts.maxChars

theorem settings_of_spawn {peer : ValidatedPeer} {limits : LimitsConfig}
    {chunking : ChunkingConfig} {pty : Pty} {unixSecs : Nat} {session : Session}
    (created : spawn peer limits chunking pty unixSecs = some session) :
    session.settings = peer.settings limits chunking := by
  obtain ⟨input, -, rfl⟩ := Option.map_eq_some_iff.mp created
  rfl

theorem opts_of_step {session next : Session} {action : SessionAction}
    (stepped : session.step strip action = some next) :
    next.chunker.opts = session.chunker.opts := by
  cases sessionStep_of_step stepped with
  | acted acted =>
      rcases chunkerMoved_of_actor acted with kept | ⟨call, -, moved⟩
      · rw [kept]
      · rw [moved, Chunker.opts_after]
  | _ => rfl

/-- No step of a session changes the values it runs with. -/
theorem settings_of_step {session next : Session} {action : SessionAction}
    (stepped : session.step strip action = some next) : next.settings = session.settings := by
  rw [settings, settings, idleTimeout, idleTimeout, peer_of_step stepped, limits_of_step stepped,
    opts_of_step stepped]

end Session

namespace Daemon

variable (strip : List UInt8 → List UInt8) (reader : JsonReader)

/-- What the current whitelist gives a peer. -/
def given (daemon : Daemon) (pubkey : Text) : Option PeerSettings :=
  daemon.whitelist.settings daemon.limits daemon.chunking pubkey

/-- The step of a schedule that spawned a session for a peer, when the whitelist gave the peer
certain values. -/
def SpawnedWith (start : Daemon) (schedule : List DaemonAction) (pubkey : Text) (index : Nat)
    (settings : PeerSettings) : Prop :=
  ∃ earlier action later before after, schedule = earlier ++ action :: later ∧
    run (step strip reader) start earlier = some before ∧
    before.step strip reader action = some after ∧ before.sessions.length = index ∧
    after.peers.lookup pubkey = some index ∧ before.given pubkey = some settings

/-- Every session in the registry runs with what the current whitelist gives its peer. -/
def SettingsCurrent (daemon : Daemon) : Prop :=
  ∀ pubkey index, daemon.peers.lookup pubkey = some index →
    ∃ session, daemon.sessions[index]? = some session ∧ daemon.given pubkey = some session.settings

/-- No reload gives other values to a peer that has a handle and stays listed. -/
def KeepsSettings (daemon : Daemon) (action : DaemonAction) : Prop :=
  ∀ whitelist, action = .reload (.ok whitelist) →
    ∀ pubkey, pubkey ∈ daemon.peers → pubkey ∈ whitelist.keys →
      whitelist.settings daemon.limits daemon.chunking pubkey = daemon.given pubkey

/-- The sessions run with the values of the entries they were spawned with. -/
def FromEntries (daemon : Daemon) : Prop :=
  ∀ session ∈ daemon.sessions, session.settings = session.peer.settings daemon.limits daemon.chunking

variable {strip reader}

theorem FromEntries.step {daemon next : Daemon} {action : DaemonAction}
    (holds : daemon.FromEntries) (stepped : DaemonStep strip reader daemon action next) :
    next.FromEntries := by
  rw [FromEntries, limits_of_step stepped, chunking_of_step stepped]
  refine session_invariant ?_ ?_ holds stepped
  · intro peer terminal unixSecs session created
    rw [Session.settings_of_spawn created, (Session.fresh_of_spawn created).peer]
  · intro session act moved settings_eq session_stepped
    rw [Session.settings_of_step session_stepped, Session.peer_of_step session_stepped,
      settings_eq]

/-- A session that a step registers runs with what the whitelist gives its peer at that step. -/
theorem settings_of_registered {daemon next : Daemon} {action : DaemonAction}
    (holds : daemon.FromEntries) (stepped : DaemonStep strip reader daemon action next)
    {pubkey : Text} {index : Nat} (registered : next.peers.lookup pubkey = some index) :
    daemon.peers.lookup pubkey = some index ∨
      (index = daemon.sessions.length ∧ next.given pubkey = daemon.given pubkey ∧
        ∃ session, next.sessions[index]? = some session ∧
          daemon.given pubkey = some session.settings) := by
  obtain before | ⟨at_end, name, data, text, peer, session, brings, same, at_index, peer_eq⟩ :=
    lookup_of_step stepped registered
  · exact Or.inl before
  · obtain ⟨dm, -, -, -, found⟩ := brings
    have settings_eq := holds.step stepped session (List.mem_of_getElem? at_index)
    rw [limits_of_step stepped, chunking_of_step stepped, peer_eq] at settings_eq
    refine Or.inr ⟨at_end, ?_, session, at_index, ?_⟩
    · rw [given, given, same, limits_of_step stepped, chunking_of_step stepped]
    · rw [given, Whitelist.settings, found, Option.map_some, settings_eq]

theorem mem_keys_of_given {daemon : Daemon} {pubkey : Text} {settings : PeerSettings}
    (given_eq : daemon.given pubkey = some settings) : pubkey ∈ daemon.whitelist.keys := by
  obtain ⟨entry, found, -⟩ := Option.map_eq_some_iff.mp given_eq
  exact Whitelist.mem_keys_iff.mpr ⟨entry, found⟩

theorem given_reload (daemon : Daemon) (whitelist : Whitelist) (pubkey : Text) :
    (daemon.reload (.ok whitelist)).given pubkey =
      whitelist.settings daemon.limits daemon.chunking pubkey := by
  rw [same_reload]
  rfl

/-- A session goes on with its values through a step of the daemon. -/
theorem settings_continue {daemon next : Daemon} {action : DaemonAction}
    (stepped : DaemonStep strip reader daemon action next) {index : Nat} {session : Session}
    (at_index : daemon.sessions[index]? = some session) :
    ∃ now, next.sessions[index]? = some now ∧ now.settings = session.settings := by
  obtain ⟨now, now_at, same | ⟨act, session_stepped, -⟩⟩ := session_continues stepped at_index
  · exact ⟨now, now_at, congrArg Session.settings same⟩
  · exact ⟨now, now_at, Session.settings_of_step session_stepped⟩

/-- What a listed peer is given changes only by a reload that changes it. -/
theorem given_of_step {daemon next : Daemon} {action : DaemonAction}
    (stepped : DaemonStep strip reader daemon action next) (keeps : daemon.KeepsSettings action)
    {pubkey : Text} {index : Nat} (listed : pubkey ∈ daemon.whitelist.keys)
    (before : daemon.peers.lookup pubkey = some index)
    (registered : next.peers.lookup pubkey = some index) :
    next.given pubkey = daemon.given pubkey := by
  obtain same | ⟨whitelist, rfl, rfl⟩ := whitelist_of_step stepped
  · rw [given, given, same, limits_of_step stepped, chunking_of_step stepped]
  · have member : pubkey ∈ daemon.peers :=
      AList.lookup_isSome.mp (Option.isSome_iff_exists.mpr ⟨index, before⟩)
    rw [given_reload]
    exact keeps whitelist rfl pubkey member (listed_of_lookup_reload listed registered)

theorem SettingsCurrent.step {daemon next : Daemon} {action : DaemonAction}
    (current : daemon.SettingsCurrent) (holds : daemon.FromEntries)
    (keeps : daemon.KeepsSettings action) (stepped : DaemonStep strip reader daemon action next) :
    next.SettingsCurrent := by
  intro pubkey index registered
  obtain before | ⟨-, same, session, at_index, given_eq⟩ :=
    settings_of_registered holds stepped registered
  · obtain ⟨session, at_index, given_eq⟩ := current pubkey index before
    obtain ⟨now, now_at, settings_eq⟩ := settings_continue stepped at_index
    have listed := mem_keys_of_given given_eq
    refine ⟨now, now_at, ?_⟩
    rw [given_of_step stepped keeps listed before registered, settings_eq, given_eq]
  · exact ⟨session, at_index, same.trans given_eq⟩

/-- A reload after which all sessions run with current values changed none of them. -/
theorem keepsSettings_of_current {daemon next : Daemon} {action : DaemonAction}
    (current : daemon.SettingsCurrent) (current_next : next.SettingsCurrent)
    (stepped : daemon.step strip reader action = some next) : daemon.KeepsSettings action := by
  rintro whitelist rfl pubkey member listed
  have kind := daemonStep_of_step stepped
  simp only [step] at stepped
  split at stepped
  · obtain rfl := Option.some.inj stepped
    obtain ⟨index, before⟩ := Option.isSome_iff_exists.mp (AList.lookup_isSome.mpr member)
    obtain ⟨session, at_index, given_eq⟩ := current pubkey index before
    obtain ⟨now, now_at, settings_eq⟩ := settings_continue kind at_index
    obtain ⟨same, same_at, given_next⟩ :=
      current_next pubkey index ((lookup_reload_of_listed listed).trans before)
    obtain rfl : now = same := by simpa [now_at] using same_at
    rw [given_reload] at given_next
    rw [given_next, given_eq, settings_eq]
  · cases stepped

/-! ## Runs -/

section Runs

variable {limits : LimitsConfig} {chunking : ChunkingConfig} {whitelist : Whitelist}
  {schedule : List DaemonAction} {daemon : Daemon}

theorem fromEntries_of_run
    (ran : run (step strip reader) (new limits chunking whitelist) schedule = some daemon) :
    daemon.FromEntries := by
  have initially : (new limits chunking whitelist).FromEntries := by
    intro session member
    cases member
  exact invariant_of_run
    (fun _ _ _ holds stepped => FromEntries.step holds (daemonStep_of_step stepped)) ran initially

theorem SpawnedWith.append {start : Daemon} {pubkey : Text} {index : Nat}
    {settings : PeerSettings}
    (origin : SpawnedWith strip reader start schedule pubkey index settings)
    (action : DaemonAction) :
    SpawnedWith strip reader start (schedule ++ [action]) pubkey index settings := by
  obtain ⟨earlier, spawning, later, before, after, rfl, rest⟩ := origin
  exact ⟨earlier, spawning, later ++ [action], before, after, by simp, rest⟩

/-- Every session in the registry runs with what it was given when it was spawned. -/
theorem spawnedWith_of_run
    (ran : run (step strip reader) (new limits chunking whitelist) schedule = some daemon)
    {pubkey : Text} {index : Nat} (registered : daemon.peers.lookup pubkey = some index) :
    ∃ session, daemon.sessions[index]? = some session ∧
      SpawnedWith strip reader (new limits chunking whitelist) schedule pubkey index
        session.settings := by
  induction schedule using List.reverseRecOn generalizing daemon with
  | nil =>
      obtain rfl := Option.some.inj ran
      cases registered
  | append_singleton schedule action ih =>
      obtain ⟨before, ran_before, stepped⟩ := run_concat_eq_some.mp ran
      have kind := daemonStep_of_step stepped
      obtain earlier | ⟨rfl, -, session, at_index, given_eq⟩ :=
        settings_of_registered (fromEntries_of_run ran_before) kind registered
      · obtain ⟨session, at_index, origin⟩ := ih ran_before earlier
        obtain ⟨now, now_at, settings_eq⟩ := settings_continue kind at_index
        exact ⟨now, now_at, settings_eq ▸ origin.append action⟩
      · exact ⟨session, at_index, schedule, action, [], before, daemon, rfl, ran_before, stepped,
          rfl, registered, given_eq⟩

/-- In every run, every session in the registry runs with the values that the whitelist gave its
peer when the session was spawned.  They are the current ones in all states of the run exactly when
no reload gives other values to a peer that has a handle and stays listed.  What a loaded whitelist
gives is the value of the entry, else the default of the file, else that of the configuration. -/
theorem sessions_keep_their_settings
    (ran : run (step strip reader) (new limits chunking whitelist) schedule = some daemon) :
    (∀ pubkey index, daemon.peers.lookup pubkey = some index →
      ∃ session, daemon.sessions[index]? = some session ∧ session.peer.pubkey = pubkey ∧
        SpawnedWith strip reader (new limits chunking whitelist) schedule pubkey index
          session.settings) ∧
    (AllStates (step strip reader) SettingsCurrent (new limits chunking whitelist) schedule ↔
      AllSteps (step strip reader) KeepsSettings (new limits chunking whitelist) schedule) ∧
    ∀ parseToml path contents file loaded, parseToml contents = .ok file →
      Whitelist.load parseToml path (.ok contents) = .ok loaded → ∀ entry ∈ file.peers,
        loaded.settings limits chunking entry.key = some
          { idleTimeout := entry.idleTimeout.getD
              (file.defaultIdleTimeout.getD limits.idleTimeout)
            dmMaxChars := entry.dmMaxChars.getD
              (file.defaultDmMaxChars.getD chunking.dmMaxChars) } := by
  refine ⟨?_, ?_, fun _ _ _ _ _ parsed loaded _ listed =>
    Whitelist.settings_of_load parsed loaded limits chunking listed⟩
  · intro pubkey index registered
    obtain ⟨session, at_index, origin⟩ := spawnedWith_of_run ran registered
    obtain ⟨owner, owner_at, owner_key⟩ := registered_of_run ran pubkey index registered
    obtain rfl : session = owner := by simpa [at_index] using owner_at
    exact ⟨session, at_index, owner_key, origin⟩
  · have no_sessions : (new limits chunking whitelist).FromEntries := by
      intro session member
      cases member
    have no_handles : (new limits chunking whitelist).SettingsCurrent := by
      intro pubkey index registered
      cases registered
    have entries_kept : ∀ state action next, FromEntries state →
        state.step strip reader action = some next → FromEntries next :=
      fun _ _ _ holds stepped => holds.step (daemonStep_of_step stepped)
    refine allStates_iff_allSteps entries_kept ?_ ?_ ran no_sessions no_handles
    · exact fun _ _ _ holds current keeps stepped =>
        current.step holds keeps (daemonStep_of_step stepped)
    · exact fun _ _ _ _ current current_next stepped =>
        keepsSettings_of_current current current_next stepped

end Runs

/-! ## A reload that changes a running session's peer -/

/-- The sample peer with a shorter idle timeout. -/
def hurriedPeer : ValidatedPeer := { samplePeer with idleTimeout := some (fromSecs 60) }

/-- A message opens a session, then the whitelist gives its peer a shorter idle timeout. -/
def hurriedSchedule : List DaemonAction :=
  [sampleFrame, .send 0, .reload (.ok { entries := [hurriedPeer] })]

/-- The reload reports the peer as changed, and its session goes on with the old timeout. -/
theorem reload_leaves_running_session :
    (diffWhitelist sampleWhitelist { entries := [hurriedPeer] }).changed = [sampleKey] ∧
      ¬ ∀ strip reader limits chunking whitelist schedule daemon,
        run (step strip reader) (new limits chunking whitelist) schedule = some daemon →
          daemon.SettingsCurrent := by
  refine ⟨by decide +kernel, fun current => ?_⟩
  have outcome : (run (step id sampleReader) sample hurriedSchedule).map (fun daemon =>
      (daemon.peers.lookup sampleKey, daemon.given sampleKey,
        daemon.sessions.map fun session => (session.phase.isOver, session.settings))) =
      some (some 0, some { idleTimeout := fromSecs 60, dmMaxChars := 120 },
        [(false, { idleTimeout := fromSecs 21600, dmMaxChars := 120 })]) := by decide +kernel
  obtain ⟨daemon, ran, outcome⟩ := Option.map_eq_some_iff.mp outcome
  obtain ⟨registered, outcome⟩ := Prod.mk.inj outcome
  obtain ⟨given_eq, sessions_eq⟩ := Prod.mk.inj outcome
  obtain ⟨session, listed, session_eq⟩ := List.map_eq_singleton_iff.mp sessions_eq
  obtain ⟨same, same_at, runs_with⟩ := current id sampleReader .default .default sampleWhitelist
    hurriedSchedule daemon ran sampleKey 0 registered
  obtain rfl : session = same := by simpa [listed] using same_at
  rw [given_eq, (Prod.mk.inj session_eq).2] at runs_with
  have timeouts := congrArg PeerSettings.idleTimeout (Option.some.inj runs_with)
  exact absurd timeouts (by decide +kernel)

theorem sessions_keep_their_settings_sample :
    ∃ daemon, run (step id sampleReader) sample hurriedSchedule = some daemon ∧
      ∀ pubkey index, daemon.peers.lookup pubkey = some index →
        ∃ session, daemon.sessions[index]? = some session ∧ session.peer.pubkey = pubkey ∧
          SpawnedWith id sampleReader sample hurriedSchedule pubkey index session.settings := by
  have completes : (run (step id sampleReader) sample hurriedSchedule).isSome = true := by
    decide +kernel
  obtain ⟨daemon, ran⟩ := Option.isSome_iff_exists.mp completes
  exact ⟨daemon, ran, (sessions_keep_their_settings ran).1⟩

end Daemon

end Loraterm
