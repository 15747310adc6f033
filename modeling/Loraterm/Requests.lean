import Loraterm.ProcessRefinement
import Loraterm.Startup

/-!
# What the program asks of the bridge

Once the program has started, two kinds of tasks make requests: the stream task asks for the event
stream, and each session's sender task hands chunks over.  Every request of a run is one of these,
with the token, for the identity of the start, and messages go to listed peers.
-/

namespace Loraterm

open Utf8Text Execution Fallible

/-- Who makes a request. -/
inductive Party
  | stream
  | session (index : Nat)
  deriving DecidableEq, Repr

/-- The requests of one party among those of all. -/
def requestsOf (party : Party) (asked : List (Party × Request)) : List Request :=
  asked.filterMap fun entry => if entry.1 = party then some entry.2 else none

@[simp] theorem requestsOf_nil (party : Party) : requestsOf party [] = [] := rfl

@[simp] theorem requestsOf_append (party : Party) (earlier later : List (Party × Request)) :
    requestsOf party (earlier ++ later) = requestsOf party earlier ++ requestsOf party later := by
  simp [requestsOf]

theorem requestsOf_map_self (party : Party) (requests : List Request) :
    requestsOf party (requests.map (party, ·)) = requests := by
  simp [requestsOf, List.filterMap_map]

theorem requestsOf_map_other {party other : Party} (different : other ≠ party)
    (requests : List Request) : requestsOf party (requests.map (other, ·)) = [] := by
  simp [requestsOf, List.filterMap_map, different]

namespace Session

variable {strip : List UInt8 → List UInt8} {session next : Session} {action : SessionAction}

theorem ActorStep.handed (stepped : ActorStep strip session next) :
    next.handed = session.handed := by
  cases stepped <;> rfl

/-- Only the sender task hands chunks over, the one it holds. -/
theorem handed_of_step (stepped : session.step strip action = some next) :
    next.handed = session.handed ++ if action = .senderSend then session.sender.inHand else [] := by
  cases sessionStep_of_step stepped with
  | acted acted => simpa using (actorStep_of_actor acted).handed
  | handed holding => simp [holding, SenderPhase.inHand]
  | _ => simp [dismiss, forget]

end Session

namespace SseStream

variable {reader : JsonReader} {stream next : SseStream} {action : StreamAction}

/-- The stream task makes a request when it finds at the head of its loop that it may go on. -/
theorem attempts_of_step (stepped : StreamStep reader stream action next) :
    next.attempts.length = stream.attempts.length +
      if action = .check ∧ stream.shutdown.value = false then 1 else 0 := by
  cases stepped with
  | left at_top told => simp [finish, told]
  | requested at_top untold => simp [untold]
  | granted connecting => simp [markSuccess]
  | accepted listening =>
      simp only [accept]
      split
      · rfl
      · rfl
  | _ => rfl

end SseStream

namespace Daemon

variable {strip : List UInt8 → List UInt8} {reader : JsonReader} {daemon next : Daemon}

/-- A session's own step is a step of that session. -/
theorem session_of_moved {index : Nat} {own : SessionAction} {now : Session}
    (moved : daemon.step strip reader (.session index own) = some next)
    (now_at : next.sessions[index]? = some now) :
    ∃ session, daemon.sessions[index]? = some session ∧ session.step strip own = some now := by
  simp only [step] at moved
  split at moved
  · obtain ⟨session, at_index, moved⟩ := Option.bind_eq_some_iff.mp moved
    obtain ⟨after, stepped, rfl⟩ := Option.map_eq_some_iff.mp moved
    have inside := (List.getElem?_eq_some_iff.mp at_index).1
    obtain rfl : after = now := by simpa [inside] using now_at
    exact ⟨session, at_index, stepped⟩
  · cases moved

/-- A new session has the settings that the whitelist gives its peer. -/
theorem listed_of_step {action : DaemonAction} (stepped : DaemonStep strip reader daemon action next)
    {now : Session} (member : now ∈ next.sessions) :
    (∃ session ∈ daemon.sessions, now.peer = session.peer) ∨
      daemon.whitelist.get now.peer.pubkey = some now.peer := by
  obtain ⟨index, now_at⟩ := List.mem_iff_getElem?.mp member
  obtain ⟨session, at_index, rfl | ⟨own, session_stepped, -⟩⟩ | ⟨at_end, -⟩ :=
    session_of_step stepped now_at
  · exact .inl ⟨now, List.mem_of_getElem? at_index, rfl⟩
  · exact .inl ⟨session, List.mem_of_getElem? at_index, Session.peer_of_step session_stepped⟩
  · have longer : daemon.sessions.length < next.sessions.length := by
      have inside := (List.getElem?_eq_some_iff.mp now_at).1
      omega
    cases stepped with
    | spawned brings missing created =>
        obtain ⟨dm, -, -, -, found⟩ := brings
        obtain before_at | ⟨-, rfl⟩ := getElem?_concat_cases now_at
        · have inside := (List.getElem?_eq_some_iff.mp before_at).1
          rw [length_dropStale] at inside
          omega
        · right
          rw [(Session.fresh_of_spawn created).peer, Whitelist.pubkey_of_get found]
          exact found
    | sent dispatching =>
        rw [send] at longer
        split at longer <;> simp at longer
    | @reloaded whitelist =>
        exact (longer.ne (length_foldl_revoke _ { daemon with whitelist }).symm).elim
    | stopped => exact (longer.ne (length_dismissAll _ _ _).symm).elim
    | _ => simp at longer

end Daemon

/-! ## Requests of a run -/

namespace Launched

variable (libraries : Libraries) (launched : Launched)

/-- The request for the event stream. -/
def streamRequest : Request :=
  launched.prepared.client.streamRequest (libraries.uuidText launched.identity)

/-- The request that hands a chunk over to a session's peer. -/
def sendRequest (session : Session) (chunk : Text) : Request :=
  launched.prepared.client.sendDmRequest
    { identityId := libraries.uuidText launched.identity
      peerPubkeyHex := session.peer.pubkey
      text := chunk }

/-- The requests made by a step. -/
def asks (process : Process) : ProcessAction → List (Party × Request)
  | .stream .check =>
      if process.stream.shutdown.value then [] else [(.stream, launched.streamRequest libraries)]
  | .session index .senderSend =>
      match process.daemon.sessions[index]? with
      | some session =>
          (session.sender.inHand.map (launched.sendRequest libraries session)).map (.session index, ·)
      | none => []
  | _ => []

/-- What was asked is what the parties have done. -/
structure Accounted (process : Process) (asked : List (Party × Request)) : Prop where
  stream : requestsOf .stream asked =
    List.replicate process.stream.attempts.length (launched.streamRequest libraries)
  sessions : ∀ index session, process.daemon.sessions[index]? = some session →
    requestsOf (.session index) asked =
      session.handed.map (launched.sendRequest libraries session)
  others : ∀ index, process.daemon.sessions.length ≤ index → requestsOf (.session index) asked = []

variable {libraries launched} {process next : Process} {action : ProcessAction}
  {asked : List (Party × Request)}

theorem sendRequest_of_peer {session now : Session} (same : now.peer = session.peer) :
    launched.sendRequest libraries now = launched.sendRequest libraries session := by
  funext chunk
  rw [sendRequest, sendRequest, same]

theorem stream_asks_other (other : action ≠ .stream .check) :
    requestsOf .stream (launched.asks libraries process action) = [] := by
  simp only [asks]
  split
  · exact (other rfl).elim
  · split
    · exact requestsOf_map_other (by simp) _
    · rfl
  · rfl

theorem session_asks_send {index : Nat} {session : Session}
    (at_index : process.daemon.sessions[index]? = some session) :
    requestsOf (.session index) (launched.asks libraries process (.session index .senderSend)) =
      session.sender.inHand.map (launched.sendRequest libraries session) := by
  simp only [asks, at_index]
  exact requestsOf_map_self _ _

theorem session_asks_other {index : Nat} (other : action ≠ .session index .senderSend) :
    requestsOf (.session index) (launched.asks libraries process action) = [] := by
  simp only [asks]
  split
  · split <;> simp [requestsOf]
  · rename_i sending
    have elsewhere : sending ≠ index := by
      rintro rfl
      exact other rfl
    split
    · exact requestsOf_map_other (by simpa using elsewhere) _
    · rfl
  · rfl

variable {strip : List UInt8 → List UInt8} {reader : JsonReader}
  {parseToml : Text → Except Text WhitelistFile} {path : Text} {start : Daemon}
  {schedule : List DaemonAction} {waiting : List (Text × Text)}

/-- The attempts of the stream task go along with its requests. -/
theorem stream_of_step
    (stepped : Process.ProcessStep strip reader parseToml path process action next) :
    List.replicate next.stream.attempts.length (launched.streamRequest libraries) =
      List.replicate process.stream.attempts.length (launched.streamRequest libraries) ++
        requestsOf .stream (launched.asks libraries process action) := by
  cases stepped with
  | @streamed act stream own moved =>
      have counted := SseStream.attempts_of_step (SseStream.streamStep_of_step moved)
      by_cases check : act = .check
      · subst check
        cases told : process.stream.shutdown.value with
        | true => simp [asks, told, counted]
        | false =>
            simp [asks, told, counted, requestsOf, List.replicate_succ']
      · rw [stream_asks_other (by simpa using check), List.append_nil]
        simp [counted, check]
  | _ => rw [stream_asks_other (by simp), List.append_nil] <;> rfl

/-- The requests of a session's sender task go along with what it hands over. -/
theorem sessions_of_step (accounted : launched.Accounted libraries process asked)
    {act : DaemonAction} (moved : process.daemon.step strip reader act = some next.daemon)
    (alike : ∀ index own, act = .session index own ↔ action = .session index own) {index : Nat}
    {now : Session} (now_at : next.daemon.sessions[index]? = some now) :
    requestsOf (.session index) asked ++
        requestsOf (.session index) (launched.asks libraries process action) =
      now.handed.map (launched.sendRequest libraries now) := by
  by_cases sends : action = .session index .senderSend
  · obtain rfl := (alike _ _).mpr sends
    obtain ⟨session, at_index, stepped⟩ := Daemon.session_of_moved moved now_at
    rw [sends, session_asks_send at_index, accounted.sessions index session at_index,
      sendRequest_of_peer (Session.peer_of_step stepped), Session.handed_of_step stepped, if_pos rfl,
      List.map_append]
  · rw [session_asks_other sends, List.append_nil]
    obtain ⟨session, at_index, rfl | ⟨own, stepped, caused⟩⟩ |
        ⟨at_end, peer, terminal, unixSecs, created⟩ :=
      Daemon.session_of_step (Daemon.daemonStep_of_step moved) now_at
    · exact accounted.sessions index now at_index
    · have keeps : own ≠ .senderSend := by
        rintro rfl
        exact sends ((alike _ _).mp caused)
      rw [accounted.sessions index session at_index,
        sendRequest_of_peer (Session.peer_of_step stepped), Session.handed_of_step stepped,
        if_neg keeps, List.append_nil]
    · rw [accounted.others index at_end.ge, (Session.fresh_of_spawn created).handed, List.map_nil]

theorem Accounted.step (accounted : launched.Accounted libraries process asked)
    (mirrors : Process.Mirrors strip reader parseToml path start process schedule waiting)
    (stepped : Process.ProcessStep strip reader parseToml path process action next) :
    launched.Accounted libraries next (asked ++ launched.asks libraries process action) := by
  refine ⟨?_, fun index now now_at => ?_, fun index outside => ?_⟩
  · rw [requestsOf_append, accounted.stream, ← stream_of_step stepped]
  · rw [requestsOf_append]
    obtain ⟨same, elsewhere⟩ | ⟨act, moved, -, alike⟩ := mirrors.moves stepped
    · rw [same] at now_at
      rw [session_asks_other (elsewhere index _), List.append_nil]
      exact accounted.sessions index now now_at
    · exact sessions_of_step accounted moved alike now_at
  · have before_outside : process.daemon.sessions.length ≤ index := by
      obtain ⟨same, -⟩ | ⟨act, moved, -, -⟩ := mirrors.moves stepped
      · rwa [same] at outside
      · exact (Daemon.length_le_of_step (Daemon.daemonStep_of_step moved)).trans outside
    have nobody : process.daemon.sessions[index]? = none := List.getElem?_eq_none before_outside
    rw [requestsOf_append, accounted.others index before_outside, List.nil_append]
    by_cases sends : action = .session index .senderSend
    · simp [sends, asks, nobody]
    · exact session_asks_other sends

end Launched

/-! ## Whom messages go to -/

namespace Process

/-- What the whitelist file contained at the start, or was edited to. -/
def Contained (file : Except Text Text) (actions : List ProcessAction) (contents : Except Text Text) :
    Prop :=
  contents = file ∨ .edit contents ∈ actions

/-- A peer has an entry in a whitelist file that the program could load. -/
def Listed (parseToml : Text → Except Text WhitelistFile) (path : Text) (file : Except Text Text)
    (actions : List ProcessAction) (peer : ValidatedPeer) : Prop :=
  ∃ contents whitelist, Contained file actions contents ∧
    Whitelist.load parseToml path contents = .ok whitelist ∧ whitelist.get peer.pubkey = some peer

/-- What is known of the whitelist and the peers of a process. -/
structure Vetted (parseToml : Text → Except Text WhitelistFile) (path : Text)
    (file : Except Text Text) (actions : List ProcessAction) (process : Process) : Prop where
  current : Contained file actions process.file
  loads : ∃ contents, Contained file actions contents ∧
    Whitelist.load parseToml path contents = .ok process.daemon.whitelist
  peers : ∀ session ∈ process.daemon.sessions, Listed parseToml path file actions session.peer

variable {strip : List UInt8 → List UInt8} {reader : JsonReader}
  {parseToml : Text → Except Text WhitelistFile} {path : Text} {start : Daemon}
  {schedule : List DaemonAction} {waiting : List (Text × Text)} {file : Except Text Text}
  {actions : List ProcessAction} {process next : Process} {action : ProcessAction}

theorem Contained.append {contents : Except Text Text} (contained : Contained file actions contents)
    (action : ProcessAction) : Contained file (actions ++ [action]) contents := by
  obtain first | edited := contained
  · exact .inl first
  · exact .inr (List.mem_append_left _ edited)

theorem Listed.append {peer : ValidatedPeer} (listed : Listed parseToml path file actions peer)
    (action : ProcessAction) : Listed parseToml path file (actions ++ [action]) peer := by
  obtain ⟨contents, whitelist, contained, loaded, found⟩ := listed
  exact ⟨contents, whitelist, contained.append action, loaded, found⟩

theorem file_of_step (stepped : ProcessStep strip reader parseToml path process action next) :
    next.file = process.file ∨ action = .edit next.file := by
  cases stepped with
  | edited contents => exact .inr rfl
  | _ => exact .inl rfl

theorem Vetted.step (vetted : Vetted parseToml path file actions process)
    (mirrors : Mirrors strip reader parseToml path start process schedule waiting)
    (stepped : ProcessStep strip reader parseToml path process action next) :
    Vetted parseToml path file (actions ++ [action]) next := by
  obtain ⟨contents, contained, loaded⟩ := vetted.loads
  refine ⟨?_, ?_, ?_⟩
  · obtain same | edited := file_of_step stepped
    · rw [same]
      exact vetted.current.append action
    · exact .inr (by simp [edited])
  · obtain ⟨same, -⟩ | ⟨act, moved, loads, -⟩ := mirrors.moves stepped
    · rw [same]
      exact ⟨contents, contained.append action, loaded⟩
    · obtain same | ⟨whitelist, reloaded, next_eq⟩ :=
        Daemon.whitelist_of_step (Daemon.daemonStep_of_step moved)
      · rw [same]
        exact ⟨contents, contained.append action, loaded⟩
      · rw [next_eq, Daemon.whitelist_reload]
        exact ⟨process.file, vetted.current.append action, (loads _ reloaded).symm⟩
  · intro now member
    obtain ⟨same, -⟩ | ⟨act, moved, -, -⟩ := mirrors.moves stepped
    · rw [same] at member
      exact (vetted.peers now member).append action
    · obtain ⟨session, before, same⟩ | found :=
        Daemon.listed_of_step (Daemon.daemonStep_of_step moved) member
      · rw [same]
        exact (vetted.peers session before).append action
      · exact ⟨contents, process.daemon.whitelist, contained.append action, loaded, found⟩

end Process

/-! ## Everything that is asked -/

namespace Launched

variable {libraries : Libraries} {world : World} {args : DaemonArgs}
  {bridge : Request → Except Text Reply} {launched : Launched} {strip : List UInt8 → List UInt8}
  {reader : JsonReader} {actions : List ProcessAction} {process : Process}

end Launched

end Loraterm
