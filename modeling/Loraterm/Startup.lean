import Loraterm.Client
import Loraterm.Process
import Loraterm.WhitelistLoad

/-!
# The start of the program

Before its main loop the program reads its configuration, its whitelist and its token, sets up the
client and asks the bridge for its identity.  Environment, files and libraries are outside; what
they give is an argument.  Log lines are left out, and so is the state directory, whose creation may
fail.
-/

namespace Loraterm

open Utf8Text Fallible

/-! ## The configuration -/

/-- Where the bridge is. -/
structure BridgeConfig where
  baseUrl : Text

/-- The identity the program expects. -/
structure IdentityConfig where
  name : Text
  id : Option Uuid

/-- Where the files are. -/
structure PathsConfig where
  whitelist : Text
  tokenFile : Option Text

/-- The configuration file. -/
structure Config where
  bridge : BridgeConfig
  identity : IdentityConfig
  paths : PathsConfig
  limits : LimitsConfig
  chunking : ChunkingConfig

/-- Read the configuration from what reading the file gave and what parsing its text gives. -/
def Config.load (parseConfig : Text → Except Text Config) (path : Text) (raw : Except Text Text) :
    Except ConfigError Config := do
  let contents ← raw.mapError (.read path)
  (parseConfig contents).mapError (.parse path)

theorem Config.load_eq_ok_iff {parseConfig : Text → Except Text Config} {path : Text}
    {raw : Except Text Text} {config : Config} :
    load parseConfig path raw = .ok config ↔
      ∃ contents, raw = .ok contents ∧ parseConfig contents = .ok config := by
  simp only [load, bind_eq_ok, mapError_eq_ok]

/-- The command line. -/
structure DaemonArgs where
  configPath : Text
  whitelistOverride : Option Text
  tokenOverride : Option Text
  sseRawLog : Option Text

/-- The environment and the files. -/
structure World where
  var : Text → Option Text
  pathExists : Text → Bool
  /-- The mode bits of a file. -/
  mode : Text → Except Text Nat
  readToString : Text → Except Text Text
  /-- Whether a log can be opened. -/
  opens : Text → Bool

/-- What the program has from libraries. -/
structure Libraries where
  parseConfig : Text → Except Text Config
  parseToml : Text → Except Text WhitelistFile
  parseIdentities : List UInt8 → Except Text (List Identity)
  checkHeader : Text → Except Text Unit
  buildHttp : Except Text Unit
  uuidText : Uuid → Text

/-! ## The token -/

namespace World

variable (world : World)

/-- A name below a directory. -/
def joinPath (dir name : Text) : Text :=
  match dir.getLast? with
  | none => name
  | some last => if last = '/' then dir ++ name else dir ++ '/' :: name

/-- The credential of the service manager, if there is one. -/
def credentialPath : Option Text :=
  match world.var "CREDENTIALS_DIRECTORY".toList with
  | none => none
  | some dir =>
      let path := joinPath dir "loraterm-token".toList
      if world.pathExists path then some path else none

end World

/-! ## The start -/

/-- What is checked before the first request. -/
structure Prepared where
  config : Config
  whitelistPath : Text
  whitelist : Whitelist
  client : CompanionClient

/-- The program when its main loop starts. -/
structure Launched where
  prepared : Prepared
  identity : Uuid
  process : Process

namespace DaemonArgs

variable (libraries : Libraries) (world : World) (args : DaemonArgs)

/-- The whitelist file. -/
def whitelistPath (config : Config) : Text := args.whitelistOverride.getD config.paths.whitelist

/-- The process of a prepared program. -/
def process (prepared : Prepared) : Process :=
  .new prepared.config.limits prepared.config.chunking prepared.whitelist
    (args.sseRawLog.any world.opens) (world.readToString prepared.whitelistPath)

end DaemonArgs

/-! ## When the program starts -/

/-- No bit of a file's mode lets its group or others do anything. -/
def OwnerOnly (world : World) (path : Text) : Prop :=
  ∃ permissions, world.mode path = .ok permissions ∧ ∀ bit < 6, permissions.testBit bit = false

/-- The token of the first place that has one, as it stands there. -/
inductive FirstToken (world : World) (config : Config) (overridePath : Option Text) : Text → Prop
  | credential {path raw : Text} (here : world.credentialPath = some path)
      (read : world.readToString path = .ok raw) : FirstToken world config overridePath raw
  | commandLine {path raw : Text} (no_credential : world.credentialPath = none)
      (here : overridePath = some path) (owned : OwnerOnly world path)
      (read : world.readToString path = .ok raw) : FirstToken world config overridePath raw
  | environment {raw : Text} (no_credential : world.credentialPath = none)
      (no_override : overridePath = none) (here : world.var "LORATERM_TOKEN".toList = some raw)
      (filled : ¬ Blank raw) : FirstToken world config overridePath raw
  | configured {path raw : Text} (no_credential : world.credentialPath = none)
      (no_override : overridePath = none)
      (no_variable : ∀ value, world.var "LORATERM_TOKEN".toList = some value → Blank value)
      (here : config.paths.tokenFile = some path) (owned : OwnerOnly world path)
      (read : world.readToString path = .ok raw) : FirstToken world config overridePath raw

namespace World

variable {world : World}

end World

/-- The identity a program acts as: the configured one, when the token sees it, or the only one. -/
inductive Chosen (config : IdentityConfig) (identities : List Identity) : Uuid → Prop
  | explicit {identity : Identity} (configured : config.id = some identity.id)
      (seen : identity ∈ identities) : Chosen config identities identity.id
  | only {identity : Identity} (unset : config.id = none) (alone : identities = [identity]) :
      Chosen config identities identity.id

namespace Whitelist

/-- A whitelist is what distinct well-formed keys of a readable file give. -/
theorem load_eq_ok_iff {parseToml : Text → Except Text WhitelistFile} {path : Text}
    {raw : Except Text Text} {whitelist : Whitelist} :
    load parseToml path raw = .ok whitelist ↔
      ∃ contents file, raw = .ok contents ∧ parseToml contents = .ok file ∧
        Loadable [] file.peers ∧ whitelist.entries = file.peers.map (·.validated file) := by
  constructor
  · intro loaded
    cases raw with
    | error source => simp [load] at loaded
    | ok contents =>
        cases parsed : parseToml contents with
        | error source => simp [load, parsed] at loaded
        | ok file =>
            obtain ⟨loadable, returned⟩ | ⟨error, -, stopped⟩ := load_cases parsed
            · obtain rfl := Except.ok.inj (returned.symm.trans loaded)
              exact ⟨contents, file, rfl, parsed, loadable, rfl⟩
            · rw [stopped] at loaded
              cases loaded
  · rintro ⟨contents, file, rfl, parsed, loadable, entries⟩
    obtain ⟨-, returned⟩ | ⟨error, fault, -⟩ := load_cases parsed
    · rw [returned, ← entries]
    · exact (not_loadable_of_firstFault fault loadable).elim

end Whitelist

namespace DaemonArgs

/-- The files and the environment let a program get as far as its first request. -/
structure Ready (libraries : Libraries) (world : World) (args : DaemonArgs) (config : Config)
    (whitelist : Whitelist) (token : Text) : Prop where
  configured : ∃ contents, world.readToString args.configPath = .ok contents ∧
    libraries.parseConfig contents = .ok config
  listed : ∃ contents file, world.readToString (args.whitelistPath config) = .ok contents ∧
    libraries.parseToml contents = .ok file ∧ Loadable [] file.peers ∧
      whitelist.entries = file.peers.map (·.validated file)
  found : ∃ raw, FirstToken world config args.tokenOverride raw ∧ token = trim raw
  size : 16 ≤ byteLen token ∧ byteLen token ≤ 128
  graphic : ∀ char ∈ token, isAsciiGraphic char = true
  http : libraries.buildHttp = .ok ()

/-- A program that reached its main loop did so with what it read and was told. -/
structure Started (libraries : Libraries) (world : World) (args : DaemonArgs)
    (bridge : Request → Except Text Reply) (token : Text) (launched : Launched) : Prop where
  ready : Ready libraries world args launched.prepared.config launched.prepared.whitelist token
  path : launched.prepared.whitelistPath = args.whitelistPath launched.prepared.config
  address : launched.prepared.client.baseUrl =
    trimEndMatches (· == '/') launched.prepared.config.bridge.baseUrl
  header : launched.prepared.client.authorization = "Bearer ".toList ++ token
  answered : ∃ response bytes identities,
    bridge launched.prepared.client.identitiesRequest = .ok response ∧
      response.isSuccess = true ∧ response.bytes = .ok bytes ∧
        libraries.parseIdentities bytes = .ok identities ∧
          Chosen launched.prepared.config.identity identities launched.identity
  fresh : launched.process = .new launched.prepared.config.limits launched.prepared.config.chunking
    launched.prepared.whitelist (args.sseRawLog.any world.opens)
    (world.readToString launched.prepared.whitelistPath)

variable {libraries : Libraries} {world : World} {args : DaemonArgs}
  {bridge : Request → Except Text Reply}

/-- The whitelist of a started program is what its file loads to. -/
theorem Started.loaded {token : Text} {launched : Launched}
    (started : Started libraries world args bridge token launched) :
    Whitelist.load libraries.parseToml launched.prepared.whitelistPath
      (world.readToString launched.prepared.whitelistPath) = .ok launched.prepared.whitelist := by
  obtain ⟨contents, file, read, parsed, loadable, entries⟩ := started.ready.listed
  rw [← started.path] at read
  exact Whitelist.load_eq_ok_iff.mpr ⟨contents, file, read, parsed, loadable, entries⟩

section Visible

variable (visible : ∀ text : Text, (∀ char ∈ text, 0x20 ≤ char.toNat ∧ char.toNat ≤ 0x7E) →
  libraries.checkHeader text = .ok ())

include visible

end Visible

/-! ## A sample start -/

end DaemonArgs

end Loraterm
