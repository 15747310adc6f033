import Loraterm.Library.ListUpdate
import Loraterm.ProcessRefinement
import Loraterm.PtyFlow

/-!
# The texts of a peer

A peer may have had many sessions, one after the other or, after a reload, side by side.  Read in
the order in which they were spawned, what was sent to their PTY inputs is a subsequence of the
encoded texts of the peer's messages: a message reaches at most one shell, once, and none overtakes
another.
-/

namespace Loraterm

open Utf8Text Mpsc WatchChannel Execution ListUpdate

namespace Session

/-- The key of the session's peer and the texts its input channel accepted. -/
def entry (session : Session) : Text × List Text := (session.peer.pubkey, session.input.accepted)

end Session

/-- The text of a frame, if it is an inbound direct message from the peer of a key. -/
def textFrom (reader : JsonReader) (key : Text) (frame : Text × Text) : Option Text :=
  match frameEvent reader frame.1 frame.2 with
  | some (.dmReceived dm) => if Daemon.senderKey dm = some key then dm.text else none
  | _ => none

namespace Daemon

/-- The entries of all sessions, in the order in which they were spawned. -/
def ledger (daemon : Daemon) : List (Text × List Text) := daemon.sessions.map Session.entry

/-- The texts that the sessions of a peer accepted. -/
def acceptedBy (key : Text) (ledger : List (Text × List Text)) : List Text :=
  (ledger.filter fun entry => entry.1 = key).flatMap Prod.snd

/-- What was sent to the PTY inputs of a peer's sessions, in the order in which they were spawned. -/
def typedBy (key : Text) (daemon : Daemon) : List (List UInt8) :=
  (daemon.sessions.filter fun session => session.peer.pubkey = key).flatMap
    fun session => session.pty.input.accepted

/-- The text on its way to a session of a peer. -/
def underway (daemon : Daemon) (key : Text) : List Text :=
  match daemon.phase with
  | .dispatching addressee text => if addressee = key then [text] else []
  | _ => []

variable {strip : List UInt8 → List UInt8} {reader : JsonReader} {daemon next : Daemon}
  {action : DaemonAction}

/-! ## What a step does to the entries -/

theorem ledger_dropStale (daemon : Daemon) (pubkey : Text) :
    (daemon.dropStale pubkey).ledger = daemon.ledger := by
  obtain ⟨same, -⟩ | ⟨index, _, -, -, -, same⟩ := daemon.dropStale_cases pubkey
  · rw [same]
  · rw [same]
    have unseen : ∀ session : Session, session.forget.entry = session.entry := fun _ => rfl
    exact map_modify_of_eq unseen _ _

theorem ledger_reload (daemon : Daemon) (whitelist : Whitelist) :
    (daemon.reload (.ok whitelist)).ledger = daemon.ledger := by
  apply List.ext_getElem?
  intro index
  rw [ledger, ledger, List.getElem?_map, List.getElem?_map]
  obtain ⟨kept, -⟩ | ⟨told, -⟩ :=
    (revoked_foldl (diffWhitelist daemon.whitelist whitelist).removed
      { daemon with whitelist }).session index
  · exact congrArg (Option.map Session.entry) kept
  · refine (congrArg (Option.map Session.entry) told).trans ?_
    rw [Option.map_map]
    rfl

theorem ledger_stop (daemon : Daemon) : daemon.stop.ledger = daemon.ledger := by
  apply List.ext_getElem?
  intro index
  rw [ledger, ledger, List.getElem?_map, List.getElem?_map, stop, getElem?_dismissAll,
    Option.map_map]
  congr 1
  funext session
  simp only [Function.comp_apply]
  split <;> rfl

theorem ledger_moved {index : Nat} {act : SessionAction} {session moved : Session}
    (own : act.own = true) (at_index : daemon.sessions[index]? = some session)
    (stepped : session.step strip act = some moved) :
    ledger { daemon with sessions := daemon.sessions.set index moved } = daemon.ledger := by
  have same : moved.entry = session.entry := by
    obtain kept | ⟨line, unixSecs, rfl, -⟩ := Session.accepted_of_step stepped
    · rw [Session.entry, Session.entry, kept, Session.peer_of_step stepped]
    · cases own
  have entry_at : daemon.ledger[index]? = some session.entry := by
    rw [ledger, List.getElem?_map, at_index]
    rfl
  rw [ledger, List.map_set, same]
  exact set_of_getElem? entry_at

/-- A delivery adds a text to the entry of the addressed session, or none when the channel refuses. -/
theorem ledger_send (daemon : Daemon) (holds : daemon.Registered) (key text : Text)
    (unixSecs : Nat) :
    (daemon.send key text unixSecs).ledger = daemon.ledger ∨
      ∃ index accepted, daemon.peers.lookup key = some index ∧
        daemon.ledger[index]? = some (key, accepted) ∧
          (daemon.send key text unixSecs).ledger =
            daemon.ledger.set index (key, accepted ++ [text]) := by
  rw [send]
  split
  · exact .inl rfl
  · rename_i index registered
    obtain ⟨session, at_index, rfl⟩ := holds key index registered
    have entry_at : daemon.ledger[index]? = some session.entry := by
      rw [ledger, List.getElem?_map, at_index]
      rfl
    have ledger_eq : (daemon.sessions.modify index (·.deliver text unixSecs)).map Session.entry =
        daemon.ledger.set index (session.deliver text unixSecs).entry := by
      rw [modify_of_getElem? at_index, List.map_set]
      rfl
    cases sent : session.input.trySend text with
    | error refusal =>
        left
        have entry_eq : (session.deliver text unixSecs).entry = session.entry := by
          simp [Session.deliver, sent, Session.entry]
        rw [entry_eq, set_of_getElem? entry_at] at ledger_eq
        exact ledger_eq
    | ok input =>
        right
        have entry_eq : (session.deliver text unixSecs).entry =
            (session.peer.pubkey, session.input.accepted ++ [text]) := by
          simp [Session.deliver, sent, Session.entry, Channel.accepted_trySend sent]
        rw [entry_eq] at ledger_eq
        exact ⟨index, _, registered, entry_at, ledger_eq⟩

/-- What a step does to the entries: nothing, or a session is spawned and registered, or the text on
its way is accepted by the session its key is registered for. -/
inductive LedgerStep (daemon next : Daemon) : Prop
  | kept (same : next.ledger = daemon.ledger)
  | spawned (key : Text) (grown : next.ledger = daemon.ledger ++ [(key, [])])
      (registered : next.peers.lookup key = some daemon.ledger.length)
  | accepted {key text : Text} {index : Nat} {texts : List Text}
      (dispatching : daemon.phase = .dispatching key text) (running : next.phase = .running)
      (registered : daemon.peers.lookup key = some index)
      (entry_at : daemon.ledger[index]? = some (key, texts))
      (extended : next.ledger = daemon.ledger.set index (key, texts ++ [text]))

theorem ledgerStep_of_step (holds : daemon.Registered)
    (stepped : DaemonStep strip reader daemon action next) : LedgerStep daemon next := by
  cases stepped with
  | refused brings => exact .kept (ledger_dropStale daemon _)
  | panicked brings => exact .kept (ledger_dropStale daemon _)
  | kept brings registered => exact .kept (ledger_dropStale daemon _)
  | @spawned name data pubkey text peer terminal unixSecs session brings missing created =>
      obtain ⟨dm, -, -, -, found⟩ := brings
      have fresh := Session.fresh_of_spawn created
      have entry_eq : session.entry = (pubkey, []) := by
        rw [Session.entry, fresh.peer, fresh.input, Whitelist.pubkey_of_get found]
        rfl
      refine .spawned pubkey ?_ ?_
      · rw [ledger, List.map_append, List.map_singleton, entry_eq, ← ledger, ledger_dropStale]
      · rw [ledger, List.length_map]
        exact AList.lookup_insert _
  | @sent pubkey text unixSecs dispatching =>
      obtain same | ⟨index, texts, registered, entry_at, extended⟩ :=
        ledger_send daemon holds pubkey text unixSecs
      · exact .kept same
      · refine .accepted dispatching ?_ registered entry_at extended
        rw [send]
        split <;> rfl
  | reloaded => exact .kept (ledger_reload daemon _)
  | stopped => exact .kept (ledger_stop daemon)
  | moved own at_index session_stepped => exact .kept (ledger_moved own at_index session_stepped)
  | _ => exact .kept rfl

/-! ## The newest session of a peer -/

/-- A peer's handle belongs to its newest session. -/
def Newest (daemon : Daemon) : Prop :=
  ∀ key index, daemon.peers.lookup key = some index → ∀ other entry,
    daemon.ledger[other]? = some entry → entry.1 = key → other ≤ index

theorem Newest.step (newest : daemon.Newest) (holds : daemon.Registered)
    (stepped : DaemonStep strip reader daemon action next) : next.Newest := by
  intro key index registered other entry entry_at key_eq
  have inside : ∀ {place : Nat} {found : Text × List Text}, daemon.ledger[place]? = some found →
      place < daemon.ledger.length := fun found_at => (List.getElem?_eq_some_iff.mp found_at).1
  have known : ∀ {before : Text × List Text}, daemon.ledger[other]? = some before →
      before.1 = key → other ≤ index := by
    intro before before_at before_key
    obtain earlier | ⟨at_end, -⟩ := lookup_of_step stepped registered
    · exact newest key index earlier other before before_at before_key
    · have := inside before_at
      rw [ledger, List.length_map] at this
      omega
  cases ledgerStep_of_step holds stepped with
  | kept same => exact known (same ▸ entry_at) key_eq
  | spawned new_key grown new_registered =>
      rw [grown] at entry_at
      obtain before_at | ⟨rfl, rfl⟩ := getElem?_concat_cases entry_at
      · exact known before_at key_eq
      · obtain rfl := key_eq
        rw [new_registered] at registered
        exact (Option.some.inj registered).le
  | accepted dispatching running addressed accepted_at extended =>
      rw [extended] at entry_at
      obtain before_at | ⟨rfl, rfl⟩ := getElem?_set_cases entry_at
      · exact known before_at key_eq
      · exact known accepted_at key_eq

/-! ## The texts a peer's sessions accepted -/

theorem acceptedBy_append (key : Text) (first second : List (Text × List Text)) :
    acceptedBy key (first ++ second) = acceptedBy key first ++ acceptedBy key second := by
  rw [acceptedBy, List.filter_append, List.flatMap_append]
  rfl

theorem acceptedBy_cons (key : Text) (entry : Text × List Text) (rest : List (Text × List Text)) :
    acceptedBy key (entry :: rest) =
      (if entry.1 = key then entry.2 else []) ++ acceptedBy key rest := by
  by_cases here : entry.1 = key
  · simp [acceptedBy, here]
  · simp [acceptedBy, here]

theorem acceptedBy_eq_nil {key : Text} {ledger : List (Text × List Text)}
    (others : ∀ entry ∈ ledger, entry.1 ≠ key) : acceptedBy key ledger = [] := by
  rw [acceptedBy, List.filter_eq_nil_iff.mpr]
  · rfl
  · intro entry member
    simpa using others entry member

/-- A text accepted by a peer's newest session comes after all others the peer's sessions accepted. -/
theorem acceptedBy_set {key owner text : Text} {index : Nat} {texts : List Text}
    {ledger : List (Text × List Text)} (entry_at : ledger[index]? = some (owner, texts))
    (newest : ∀ other entry, ledger[other]? = some entry → entry.1 = owner → other ≤ index) :
    acceptedBy key (ledger.set index (owner, texts ++ [text])) =
      acceptedBy key ledger ++ if owner = key then [text] else [] := by
  obtain ⟨front, back, rfl, rfl⟩ := exists_split_of_getElem? entry_at
  have later : ∀ entry ∈ back, entry.1 ≠ owner := by
    intro entry member key_eq
    obtain ⟨place, place_at⟩ := List.mem_iff_getElem?.mp member
    have entry_at : (front ++ (owner, texts) :: back)[front.length + (place + 1)]? = some entry := by
      rw [List.getElem?_append_right (Nat.le_add_right _ _), Nat.add_sub_cancel_left]
      exact place_at
    have behind := newest _ entry entry_at key_eq
    omega
  rw [List.set_append_right _ _ (Nat.le_refl _), Nat.sub_self, List.set_cons_zero,
    acceptedBy_append, acceptedBy_append, acceptedBy_cons, acceptedBy_cons]
  by_cases here : owner = key
  · subst here
    simp [acceptedBy_eq_nil later]
  · simp [here]

theorem textFrom_of_brings {name data key text : Text} {peer : ValidatedPeer}
    (brings : Brings reader daemon name data key text peer) :
    textFrom reader key (name, data) = some text := by
  obtain ⟨dm, parsed, text_eq, key_eq, -⟩ := brings
  simp only [textFrom, parsed, key_eq, if_true]
  exact text_eq

/-- The texts accepted by a peer's sessions, and the one on its way to them, are among some texts, in
their order. -/
def InTurn (daemon : Daemon) (key : Text) (texts : List Text) : Prop :=
  (acceptedBy key daemon.ledger ++ daemon.underway key).Sublist texts

theorem underway_of_step (stepped : DaemonStep strip reader daemon action next) (key : Text) :
    next.underway key = [] ∨ next.underway key = daemon.underway key ∨
      next.underway key = action.frames.filterMap (textFrom reader key) := by
  cases phase_eq : next.phase with
  | dispatching addressee text =>
      by_cases here : addressee = key
      · subst here
        right
        obtain before | ⟨name, data, terminal, unixSecs, peer, rfl, brings⟩ :=
          dispatching_of_step stepped phase_eq
        · left
          rw [underway, underway, phase_eq, before]
        · right
          simp [underway, phase_eq, DaemonAction.frames, textFrom_of_brings brings]
      · left
        simp [underway, phase_eq, here]
  | _ =>
      left
      simp [underway, phase_eq]

theorem InTurn.step {key : Text} {texts : List Text} (in_turn : daemon.InTurn key texts)
    (newest : daemon.Newest) (holds : daemon.Registered)
    (stepped : DaemonStep strip reader daemon action next) :
    next.InTurn key (texts ++ action.frames.filterMap (textFrom reader key)) := by
  have accepted_before : (acceptedBy key daemon.ledger).Sublist texts :=
    (List.sublist_append_left _ _).trans in_turn
  have longer : texts.Sublist (texts ++ action.frames.filterMap (textFrom reader key)) :=
    List.sublist_append_left _ _
  have same_accepted : acceptedBy key next.ledger = acceptedBy key daemon.ledger →
      next.InTurn key (texts ++ action.frames.filterMap (textFrom reader key)) := by
    intro same
    rw [InTurn, same]
    obtain nothing | before | brought := underway_of_step stepped key
    · rw [nothing, List.append_nil]
      exact accepted_before.trans longer
    · rw [before]
      exact in_turn.trans longer
    · rw [brought]
      exact accepted_before.append (List.Sublist.refl _)
  cases ledgerStep_of_step holds stepped with
  | kept same => exact same_accepted (by rw [same])
  | spawned owner grown registered =>
      apply same_accepted
      rw [grown, acceptedBy_append, acceptedBy_cons]
      simp [acceptedBy]
  | @accepted owner text index accepted dispatching running registered entry_at extended =>
      have nothing : next.underway key = [] := by rw [underway, running]
      rw [InTurn, extended, nothing, List.append_nil,
        acceptedBy_set entry_at (newest owner index registered)]
      rw [InTurn, underway, dispatching] at in_turn
      exact in_turn.trans longer

theorem inTurn_of_run {limits : LimitsConfig} {chunking : ChunkingConfig} {whitelist : Whitelist}
    {schedule : List DaemonAction} (key : Text)
    (ran : run (step strip reader) (new limits chunking whitelist) schedule = some daemon) :
    daemon.Newest ∧
      daemon.InTurn key ((schedule.flatMap DaemonAction.frames).filterMap (textFrom reader key)) := by
  induction schedule using List.reverseRecOn generalizing daemon with
  | nil =>
      obtain rfl := Option.some.inj ran
      refine ⟨?_, List.Sublist.refl _⟩
      intro key index registered
      cases registered
  | append_singleton schedule action ih =>
      obtain ⟨before, ran_before, stepped⟩ := run_concat_eq_some.mp ran
      obtain ⟨newest, in_turn⟩ := ih ran_before
      have holds := registered_of_run ran_before
      have stepped := daemonStep_of_step stepped
      rw [List.flatMap_append, List.filterMap_append, List.flatMap_singleton]
      exact ⟨newest.step holds stepped, in_turn.step newest holds stepped⟩

theorem typed_of_run {limits : LimitsConfig} {chunking : ChunkingConfig} {whitelist : Whitelist}
    {schedule : List DaemonAction}
    (ran : run (step strip reader) (new limits chunking whitelist) schedule = some daemon) :
    ∀ session ∈ daemon.sessions, session.Typed := by
  refine @invariant_of_run _ _ _ _ _
    (fun daemon : Daemon => ∀ session ∈ daemon.sessions, session.Typed) ?_ _ ran (by simp [new])
  intro before act after typed stepped
  exact session_invariant (fun _ _ _ _ created => Session.typed_spawn created)
    (fun _ _ _ typed stepped => typed.step stepped) typed (daemonStep_of_step stepped)

/-- What was typed for a peer are some of the texts its sessions accepted, in their order. -/
theorem typedBy_sublist (typed : ∀ session ∈ daemon.sessions, session.Typed) (key : Text) :
    (daemon.typedBy key).Sublist ((acceptedBy key daemon.ledger).map encodePtyInput) := by
  rw [typedBy, ledger]
  generalize daemon.sessions = sessions at typed
  induction sessions with
  | nil => exact List.Sublist.refl _
  | cons session sessions ih =>
      obtain ⟨here, others⟩ := List.forall_mem_cons.mp typed
      rw [List.map_cons, acceptedBy_cons, List.map_append, List.filter_cons]
      split
      · rename_i own
        have own : session.entry.1 = key := of_decide_eq_true own
        rw [List.flatMap_cons, if_pos own]
        exact here.of_accepted.sublist.append (ih others)
      · rename_i other
        have other : session.entry.1 ≠ key := fun same => other (decide_eq_true same)
        rw [if_neg other]
        exact ih others

end Daemon

/-! ## In a run of the process -/

namespace Process

variable {strip : List UInt8 → List UInt8} {reader : JsonReader}
  {parseToml : Text → Except Text WhitelistFile} {path : Text}

/-- A frame without an event brings no text. -/
theorem filterMap_parsedFrames (stream : SseStream) (key : Text) :
    (stream.parsedFrames reader).filterMap (textFrom reader key) =
      stream.frames.filterMap fun frame => textFrom reader key frame.parts := by
  rw [SseStream.parsedFrames, List.filterMap_map, List.filterMap_filter]
  congr 1
  funext frame
  cases parsed : frame.event reader with
  | none =>
      have unparsed : frameEvent reader frame.parts.1 frame.parts.2 = none := parsed
      simp [textFrom, unparsed]
  | some event => simp

/-- In every run of the process, whatever sessions a peer had, and however they overlapped: what was
sent to their PTY inputs, session after session, are the encoded texts of some of the direct messages
the stream brought from this very peer, each at most once and in the order in which they came. -/
theorem texts_typed_in_turn {limits : LimitsConfig} {chunking : ChunkingConfig}
    {whitelist : Whitelist} {logged : Bool} {file : Except Text Text} {actions : List ProcessAction}
    {process : Process}
    (ran : run (step strip reader parseToml path) (new limits chunking whitelist logged file)
      actions = some process) (key : Text) :
    (process.daemon.typedBy key).Sublist
      ((process.stream.frames.filterMap fun frame => textFrom reader key frame.parts).map
        encodePtyInput) := by
  obtain ⟨schedule, waiting, mirrors⟩ := mirrors_of_run ran
  have typed := Daemon.typedBy_sublist (Daemon.typed_of_run mirrors.ran) key
  have accepted := (List.sublist_append_left _ _).trans (Daemon.inTurn_of_run key mirrors.ran).2
  have handled : (schedule.flatMap DaemonAction.frames).Sublist (process.stream.parsedFrames reader) := by
    rw [mirrors.frames]
    exact List.sublist_append_left _ _
  rw [← filterMap_parsedFrames]
  exact typed.trans ((accepted.trans (handled.filterMap _)).map _)

/-- One message of a peer is read, handled, sent and typed. -/
theorem texts_typed_in_turn_sample :
    ∃ process, run (step id Daemon.sampleReader (fun _ => .error []) [])
        (new .default .default Daemon.sampleWhitelist false (.ok []))
        [.stream .check, .stream (.respond (.status 200) 0), .stream .pollShutdown,
          .stream (.pollEvents (.frame { name := [], id := [], data := Daemon.sampleData }) 0),
          .stream .hand, .pollSignals, .pollEvents (some { inSize := 4096, outSize := 4096 }) 0,
          .send 0, .session 0 (.actor (.plain 0 0)), .session 0 (.actor (.plain 0 0)),
          .session 0 (.actor (.plain 0 0)), .session 0 (.actor (.plain 0 0))] = some process ∧
      process.daemon.typedBy Daemon.sampleKey = [bytes "ls\n".toList] ∧
        (process.daemon.typedBy Daemon.sampleKey).Sublist
          ((process.stream.frames.filterMap fun frame =>
            textFrom Daemon.sampleReader Daemon.sampleKey frame.parts).map encodePtyInput) := by
  have completes : (run (step id Daemon.sampleReader (fun _ => .error []) [])
      (new .default .default Daemon.sampleWhitelist false (.ok []))
      [.stream .check, .stream (.respond (.status 200) 0), .stream .pollShutdown,
        .stream (.pollEvents (.frame { name := [], id := [], data := Daemon.sampleData }) 0),
        .stream .hand, .pollSignals, .pollEvents (some { inSize := 4096, outSize := 4096 }) 0,
        .send 0, .session 0 (.actor (.plain 0 0)), .session 0 (.actor (.plain 0 0)),
        .session 0 (.actor (.plain 0 0)), .session 0 (.actor (.plain 0 0))]).map
        (fun process => process.daemon.typedBy Daemon.sampleKey) =
      some [bytes "ls\n".toList] := by
    decide +kernel
  obtain ⟨process, ran, typed⟩ := Option.map_eq_some_iff.mp completes
  exact ⟨process, ran, typed, texts_typed_in_turn ran Daemon.sampleKey⟩

end Process

end Loraterm
