import Loraterm.Library.Utf8Text

/-!
# Classifying event frames

`parse_event` turns the name and the data of one frame into an event.  The JSON parser is a
parameter; JSON values are lookup tables of fields.  `none` is a panic of the source.
-/

namespace Loraterm

open Utf8Text

/-- A JSON value. -/
inductive Json
  | null
  | bool (value : Bool)
  | number (literal : Text)
  | string (value : Text)
  | array (items : List Json)
  | object (fields : List (Text × Json))

namespace Json

/-- A field of an object. -/
def get : Json → Text → Option Json
  | .object fields, key => fields.lookup key
  | _, _ => none

/-- The text of a string value. -/
def asStr : Json → Option Text
  | .string value => some value
  | _ => none

/-- The text of a string field, lower-cased, empty when there is none. -/
def lowerField (value : Json) (key : Text) : Text :=
  asciiLower (((value.get key).bind asStr).getD [])

/-- An optional string field of a record: absent and null are `none`, other types are errors. -/
def optionalText (value : Json) (key : Text) : Option (Option Text) :=
  match value.get key with
  | none => some none
  | some .null => some none
  | some (.string text) => some (some text)
  | some _ => none

/-- A string field that a record must have. -/
def requiredText (value : Json) (key : Text) : Option Text := (value.get key).bind asStr

end Json

/-- Narrow shape of a direct message, inbound or echoed. -/
structure DmEvent where
  id : Option Text
  identityId : Option Text
  peerPubkeyHex : Text
  peerName : Option Text
  text : Option Text
  direction : Option Text
  payloadType : Option Text
  ts : Option Text
  deriving DecidableEq, Repr

/-- Read the record from an object; unknown fields are ignored. -/
def DmEvent.fromValue (value : Json) : Option DmEvent := do
  let id ← value.optionalText "id".toList
  let identityId ← value.optionalText "identity_id".toList
  let peerPubkeyHex ← value.requiredText "peer_pubkey_hex".toList
  let peerName ← value.optionalText "peer_name".toList
  let text ← value.optionalText "text".toList
  let direction ← value.optionalText "direction".toList
  let payloadType ← value.optionalText "payload_type".toList
  let ts ← value.optionalText "ts".toList
  some { id, identityId, peerPubkeyHex, peerName, text, direction, payloadType, ts }

/-- A classified frame. -/
inductive SseEvent
  | dmReceived (dm : DmEvent)
  | sentEcho (dm : DmEvent)
  | other (kind : Text) (raw : Json)
  | comment (kind : Text)

/-- What the event module calls from other packages. -/
structure JsonReader where
  /-- The JSON parser. -/
  fromStr : Text → Option Json
  /-- Whether debug messages are formatted. -/
  debug : Bool

/-- The prefix of malformed data that is logged: its first 200 bytes. -/
def malformedHead (data : Text) : Option Text :=
  (splitAt? data (min (byteLen data) 200)).map Prod.fst

/-- Classify a JSON value. -/
def classify (eventName : Text) (value : Json) : SseEvent :=
  let typeField := value.lowerField "type".toList
  let direction := value.lowerField "direction".toList
  if direction = "out".toList ∨ "sent_".toList.isPrefixOf typeField then
    match DmEvent.fromValue value with
    | some dm => .sentEcho dm
    | none => .other typeField value
  else
    let inbound :=
      if (typeField = "dm".toList ∨ typeField = []) ∧ direction = "in".toList then
        (DmEvent.fromValue value).filter fun dm => dm.text.isSome && !dm.peerPubkeyHex.isEmpty
      else none
    match inbound with
    | some dm => .dmReceived dm
    | none => .other (if typeField = [] then eventName else typeField) value

/-- Classify the data of a frame. -/
def parseEvent (reader : JsonReader) (eventName data : Text) : Option SseEvent :=
  match reader.fromStr data with
  | some value => some (classify eventName value)
  | none =>
      if reader.debug then
        (malformedHead data).map fun _ => .other eventName (.string data)
      else some (.other eventName (.string data))

/-- What the stream task makes of a frame: frames without data are comments. -/
def frameEvent (reader : JsonReader) (eventName data : Text) : Option SseEvent :=
  if data.isEmpty then some (.comment eventName) else parseEvent reader eventName data

/-! ## Inbound direct messages -/

/-- The value describes an inbound direct message of a sender. -/
structure InboundDm (value : Json) (dm : DmEvent) : Prop where
  direction : value.lowerField "direction".toList = "in".toList
  type : value.lowerField "type".toList = "dm".toList ∨ value.lowerField "type".toList = []
  fields : DmEvent.fromValue value = some dm

theorem inbound_of_classify {eventName : Text} {value : Json} {dm : DmEvent}
    (classified : classify eventName value = .dmReceived dm) : InboundDm value dm := by
  simp only [classify] at classified
  split at classified
  · split at classified <;> cases classified
  · split at classified
    · rename_i found
      split at found
      · rename_i inbound
        obtain ⟨read, -⟩ := Option.filter_eq_some_iff.mp found
        cases classified
        exact ⟨inbound.2, inbound.1, read⟩
      · cases found
    · cases classified

/-- Only the data of a frame whose JSON is an inbound direct message is dispatched as one. -/
theorem inbound_of_frameEvent {reader : JsonReader} {eventName data : Text} {dm : DmEvent}
    (parsed : frameEvent reader eventName data = some (.dmReceived dm)) :
    ∃ value, reader.fromStr data = some value ∧ InboundDm value dm := by
  simp only [frameEvent, parseEvent] at parsed
  split at parsed
  · cases parsed
  · split at parsed
    · rename_i value read
      exact ⟨value, read, inbound_of_classify (Option.some.inj parsed)⟩
    · split at parsed
      · obtain ⟨head, -, event_eq⟩ := Option.map_eq_some_iff.mp parsed
        cases event_eq
      · cases parsed

theorem requiredText_of_fromValue {value : Json} {dm : DmEvent}
    (read : DmEvent.fromValue value = some dm) :
    value.requiredText "peer_pubkey_hex".toList = some dm.peerPubkeyHex ∧
      value.optionalText "text".toList = some dm.text := by
  simp only [DmEvent.fromValue, Option.bind_eq_bind, Option.bind_eq_some_iff] at read
  obtain ⟨id, -, identityId, -, pubkey, key_eq, peerName, -, text, text_eq, direction, -,
    payloadType, -, ts, -, dm_eq⟩ := read
  obtain rfl := Option.some.inj dm_eq
  exact ⟨key_eq, text_eq⟩

end Loraterm
