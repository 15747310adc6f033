import Loraterm.Library.Utf8Text

/-!
# Configuration and whitelist

The records of the two configuration files as the rest of the program reads them, loading of the
whitelist and the difference of two whitelists.  Durations are nanoseconds.  Reading a file and
parsing TOML are outside; their results are arguments.
-/

namespace Loraterm

open Utf8Text

/-- Nanoseconds of a number of seconds. -/
def fromSecs (secs : Nat) : Nat := secs * 1000000000

/-- Whole seconds of a duration. -/
def asSecs (duration : Nat) : Nat := duration / 1000000000

/-- The numbers that bound a session. -/
structure LimitsConfig where
  perPeerPeriod : Nat
  perPeerBurst : Nat
  globalPeriod : Nat
  globalBurst : Nat
  idleTimeout : Nat
  /-- Most chunks per flush. -/
  burstChunkCap : Nat
  /-- Slots of the channel from the daemon to a session, in lines. -/
  inboundChannelDepth : Nat
  /-- Slots of the channel from a session to its sender task, in chunks. -/
  outboundChannelDepth : Nat
  deriving DecidableEq, Repr

/-- The limits of a configuration file that names none. -/
def LimitsConfig.default : LimitsConfig where
  perPeerPeriod := fromSecs 4
  perPeerBurst := 2
  globalPeriod := fromSecs 1
  globalBurst := 5
  idleTimeout := fromSecs (6 * 3600)
  burstChunkCap := 50
  inboundChannelDepth := 32
  outboundChannelDepth := 64

/-- How PTY output becomes chunks. -/
structure ChunkingConfig where
  dmMaxChars : Nat
  numberChunks : Bool
  flushSilence : Nat
  deriving DecidableEq, Repr

/-- The chunking of a configuration file that names none. -/
def ChunkingConfig.default : ChunkingConfig where
  dmMaxChars := 120
  numberChunks := true
  flushSilence := 600000000

/-! ## The whitelist -/

/-- One entry of a whitelist file. -/
structure PeerEntry where
  pubkey : Text
  nickname : Option Text
  idleTimeout : Option Nat
  dmMaxChars : Option Nat
  deriving DecidableEq, Repr

/-- A parsed whitelist file. -/
structure WhitelistFile where
  defaultIdleTimeout : Option Nat
  defaultDmMaxChars : Option Nat
  peers : List PeerEntry
  deriving DecidableEq, Repr

/-- A whitelist entry whose key is canonical. -/
structure ValidatedPeer where
  pubkey : Text
  nickname : Option Text
  idleTimeout : Option Nat
  dmMaxChars : Option Nat
  deriving DecidableEq, Repr

/-- A loaded whitelist. -/
structure Whitelist where
  entries : List ValidatedPeer
  deriving DecidableEq, Repr

/-- Why a whitelist does not load. -/
inductive ConfigError
  | read (path source : Text)
  | parse (path source : Text)
  | invalidPubkey (path : Text) (index : Nat) (reason : Text)
  | duplicatePubkey (path pubkey : Text)
  deriving DecidableEq, Repr

/-- The canonical spelling of a key, or why it is none. -/
def validatePubkey (raw : Text) : Except Text Text :=
  let trimmed := trim raw
  if byteLen trimmed ≠ 64 then
    .error ("expected 64 hex chars, got ".toList ++ (toString (byteLen trimmed)).toList)
  else if trimmed.all isHexDigit then .ok (asciiLower trimmed)
  else .error "non-hex characters".toList

namespace Whitelist

/-- The loop of `Whitelist::load` over the entries not yet validated. -/
def validateEntries (path : Text) (file : WhitelistFile) :
    Nat → List Text → List PeerEntry → Except ConfigError (List ValidatedPeer)
  | _, _, [] => .ok []
  | index, seen, peer :: peers =>
      match validatePubkey peer.pubkey with
      | .error reason => .error (.invalidPubkey path index reason)
      | .ok canon =>
          if canon ∈ seen then .error (.duplicatePubkey path canon)
          else
            (validateEntries path file (index + 1) (canon :: seen) peers).map
              ({ pubkey := canon
                 nickname := peer.nickname
                 idleTimeout := peer.idleTimeout <|> file.defaultIdleTimeout
                 dmMaxChars := peer.dmMaxChars <|> file.defaultDmMaxChars } :: ·)

/-- Load a whitelist from what reading the file gave and what parsing its text gives. -/
def load (parseToml : Text → Except Text WhitelistFile) (path : Text)
    (raw : Except Text Text) : Except ConfigError Whitelist :=
  match raw with
  | .error source => .error (.read path source)
  | .ok contents =>
      match parseToml contents with
      | .error source => .error (.parse path source)
      | .ok file => (validateEntries path file 0 [] file.peers).map fun entries => { entries }

/-- The keys in file order. -/
def keys (whitelist : Whitelist) : List Text := whitelist.entries.map ValidatedPeer.pubkey

/-- Whether a key is listed. -/
def contains (whitelist : Whitelist) (pubkey : Text) : Bool :=
  whitelist.entries.any fun entry => entry.pubkey == pubkey

/-- The first entry of a key. -/
def get (whitelist : Whitelist) (pubkey : Text) : Option ValidatedPeer :=
  whitelist.entries.find? fun entry => entry.pubkey == pubkey

theorem mem_keys_iff {whitelist : Whitelist} {pubkey : Text} :
    pubkey ∈ whitelist.keys ↔ ∃ entry, whitelist.get pubkey = some entry := by
  rw [get, ← Option.isSome_iff_exists, List.find?_isSome]
  simp [keys]

theorem pubkey_of_get {whitelist : Whitelist} {pubkey : Text} {entry : ValidatedPeer}
    (found : whitelist.get pubkey = some entry) : entry.pubkey = pubkey := by
  simpa using List.find?_some found

end Whitelist

/-- The difference of two whitelists.  The order of `added` and `removed` is that of a hash set in
the source, and nothing depends on it. -/
structure WhitelistDiff where
  added : List Text
  removed : List Text
  changed : List Text
  deriving DecidableEq, Repr

/-- Compare two whitelists. -/
def diffWhitelist (old new : Whitelist) : WhitelistDiff where
  added := new.keys.dedup.filter fun key => key ∉ old.keys
  removed := old.keys.dedup.filter fun key => key ∉ new.keys
  changed := new.entries.filterMap fun newEntry =>
    (old.get newEntry.pubkey).bind fun oldEntry =>
      if oldEntry ≠ newEntry then some newEntry.pubkey else none

theorem mem_removed_iff {old new : Whitelist} {pubkey : Text} :
    pubkey ∈ (diffWhitelist old new).removed ↔ pubkey ∈ old.keys ∧ pubkey ∉ new.keys := by
  simp [diffWhitelist]

end Loraterm
