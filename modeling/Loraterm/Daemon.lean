import Loraterm.Session
import Loraterm.Sse

/-!
# The daemon

The main loop owns the whitelist and the registry of peer handles.  It dispatches the frames the
stream task parsed, reloads the whitelist on a signal, and stops.  A dispatch is two steps: first
the peer's session is ensured, then the text is offered to its channel; the sessions run in
between.  A handle is the number of its session.
-/

namespace Loraterm

open Utf8Text Mpsc Execution

/-- What the outside grants a new session: the sizes of the kernel's terminal buffers. -/
structure Terminal where
  inSize : Nat
  outSize : Nat
  deriving DecidableEq, Repr

/-- Where the main task is. -/
inductive DaemonPhase
  | running
  /-- A text is on its way to the session of a peer. -/
  | dispatching (pubkey text : Text)
  /-- The loop is left and every peer was told. -/
  | closing
  | returned
  | panicked
  deriving DecidableEq, Repr

/-- The daemon and its sessions. -/
structure Daemon where
  limits : LimitsConfig
  chunking : ChunkingConfig
  whitelist : Whitelist
  /-- The registry: the session each handle belongs to. -/
  peers : AList fun _ : Text => Nat
  /-- Every session ever spawned. -/
  sessions : List Session
  phase : DaemonPhase
  /-- Whether the stream task is alive. -/
  streaming : Bool

/-- The steps of the main task and of the sessions. -/
inductive DaemonAction
  /-- A frame is parsed and dispatched; `terminal` is absent when a PTY cannot be opened. -/
  | frame (name data : Text) (terminal : Option Terminal) (unixSecs : Nat)
  | send (unixSecs : Nat)
  | reload (loaded : Except ConfigError Whitelist)
  | stop
  | finish
  | session (index : Nat) (action : SessionAction)

namespace Daemon

/-- The daemon as its loop starts, with a loaded whitelist. -/
def new (limits : LimitsConfig) (chunking : ChunkingConfig) (whitelist : Whitelist) : Daemon where
  limits := limits
  chunking := chunking
  whitelist := whitelist
  peers := ∅
  sessions := []
  phase := .running
  streaming := true

/-- The key a message's sender is looked up by, when it is well formed. -/
def senderKey (dm : DmEvent) : Option Text :=
  let pubkey := asciiLower dm.peerPubkeyHex
  if byteLen pubkey = 64 ∧ pubkey.all isHexDigit then some pubkey else none

/-- Remove the peer's handle when its session no longer receives. -/
def dropStale (daemon : Daemon) (pubkey : Text) : Daemon :=
  match daemon.peers.lookup pubkey with
  | none => daemon
  | some index =>
      if (daemon.sessions[index]?).any fun session => session.input.isClosed then
        { daemon with
          peers := daemon.peers.erase pubkey
          sessions := daemon.sessions.modify index Session.forget }
      else daemon

/-- Make sure the peer has a handle, spawning a session if it has none. -/
def ensure (daemon : Daemon) (peer : ValidatedPeer) (pubkey text : Text)
    (terminal : Option Terminal) (unixSecs : Nat) : Daemon :=
  match daemon.peers.lookup pubkey with
  | some _ => { daemon with phase := .dispatching pubkey text }
  | none =>
      match terminal with
      | none => daemon
      | some terminal =>
          match Session.spawn peer daemon.limits daemon.chunking
              (Pty.spawn terminal.inSize terminal.outSize) unixSecs with
          | none => { daemon with phase := .panicked }
          | some session =>
              { daemon with
                peers := daemon.peers.insert pubkey daemon.sessions.length
                sessions := daemon.sessions ++ [session]
                phase := .dispatching pubkey text }

/-- `handle_sse_event` up to the send. -/
def dispatch (daemon : Daemon) (dm : DmEvent) (terminal : Option Terminal) (unixSecs : Nat) :
    Daemon :=
  match dm.text with
  | none => daemon
  | some text =>
      match senderKey dm with
      | none => daemon
      | some pubkey =>
          match daemon.whitelist.get pubkey with
          | none => daemon
          | some peer => (daemon.dropStale pubkey).ensure peer pubkey text terminal unixSecs

/-- Handle one frame; the stream task dies when parsing panics. -/
def frame (reader : JsonReader) (daemon : Daemon) (name data : Text) (terminal : Option Terminal)
    (unixSecs : Nat) : Daemon :=
  match frameEvent reader name data with
  | none => { daemon with streaming := false }
  | some (.dmReceived dm) => daemon.dispatch dm terminal unixSecs
  | some _ => daemon

/-- The send that ends a dispatch. -/
def send (daemon : Daemon) (pubkey text : Text) (unixSecs : Nat) : Daemon :=
  match daemon.peers.lookup pubkey with
  | none => { daemon with phase := .running }
  | some index =>
      { daemon with
        sessions := daemon.sessions.modify index (·.deliver text unixSecs)
        phase := .running }

/-- Tell a removed peer's session and drop its handle. -/
def revoke (daemon : Daemon) (pubkey : Text) : Daemon :=
  match daemon.peers.lookup pubkey with
  | none => daemon
  | some index =>
      { daemon with
        peers := daemon.peers.erase pubkey
        sessions := daemon.sessions.modify index (·.dismiss .revoked) }

/-- `reload_whitelist`: nothing happens when loading fails. -/
def reload (daemon : Daemon) (loaded : Except ConfigError Whitelist) : Daemon :=
  match loaded with
  | .error _ => daemon
  | .ok whitelist =>
      (diffWhitelist daemon.whitelist whitelist).removed.foldl revoke { daemon with whitelist }

/-- Tell several sessions. -/
def dismissAll (reason : Reason) (sessions : List Session) (indices : List Nat) : List Session :=
  indices.foldl (fun sessions index => sessions.modify index (·.dismiss reason)) sessions

/-- Leave the loop: tell every peer, then clear the registry. -/
def stop (daemon : Daemon) : Daemon :=
  { daemon with
    sessions := dismissAll .shutdown daemon.sessions (daemon.peers.entries.map Sigma.snd)
    peers := ∅
    phase := .closing }

variable (strip : List UInt8 → List UInt8) (reader : JsonReader)

/-- One step of the daemon or of a session. -/
def step (daemon : Daemon) : DaemonAction → Option Daemon
  | .frame name data terminal unixSecs =>
      if daemon.phase = .running ∧ daemon.streaming = true then
        some (daemon.frame reader name data terminal unixSecs)
      else none
  | .send unixSecs =>
      match daemon.phase with
      | .dispatching pubkey text => some (daemon.send pubkey text unixSecs)
      | _ => none
  | .reload loaded => if daemon.phase = .running then some (daemon.reload loaded) else none
  | .stop => if daemon.phase = .running then some daemon.stop else none
  | .finish => if daemon.phase = .closing then some { daemon with phase := .returned } else none
  | .session index action =>
      if action.own = true ∧ daemon.phase ≠ .returned ∧ daemon.phase ≠ .panicked then
        (daemon.sessions[index]?).bind fun session =>
          (session.step strip action).map fun next =>
            { daemon with sessions := daemon.sessions.set index next }
      else none

end Daemon

end Loraterm
