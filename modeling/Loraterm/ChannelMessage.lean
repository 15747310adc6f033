import Loraterm.TrustBoundary

/-!
# Channel messages

The bridge gives channel messages the type and direction of direct messages and marks them by a
`channel_id` only.  The classifier does not look at it: what decides is whether the other fields
read as a direct message.
-/

namespace Loraterm

open Utf8Text Mpsc Execution

namespace Json

/-- The message was sent to a channel. -/
def OnChannel (value : Json) : Prop :=
  ∃ channel, value.get "channel_id".toList = some channel ∧ channel ≠ .null

/-- The optional string fields of a direct message. -/
def directFields : List Text :=
  ["id".toList, "identity_id".toList, "peer_name".toList, "text".toList, "direction".toList,
    "payload_type".toList, "ts".toList]

/-- Every field of the record has its type. -/
structure FieldsFit (value : Json) : Prop where
  sender : (value.requiredText "peer_pubkey_hex".toList).isSome = true
  optional : ∀ key ∈ directFields, (value.optionalText key).isSome = true

/-- The fields, `channel_id` apart, are those of an inbound direct message with a sender and a
text. -/
structure ReadsAsDirect (value : Json) : Prop where
  direction : value.lowerField "direction".toList = "in".toList
  type : value.lowerField "type".toList = "dm".toList ∨ value.lowerField "type".toList = []
  fits : value.FieldsFit
  sender : value.requiredText "peer_pubkey_hex".toList ≠ some []
  text : value.optionalText "text".toList ≠ some none

end Json

/-- The record is read exactly when its fields fit. -/
theorem isSome_fromValue_iff (value : Json) :
    (DmEvent.fromValue value).isSome = true ↔ value.FieldsFit := by
  constructor
  · intro read
    obtain ⟨dm, read⟩ := Option.isSome_iff_exists.mp read
    simp only [DmEvent.fromValue, Option.bind_eq_bind, Option.bind_eq_some_iff] at read
    obtain ⟨id, id_eq, identityId, identity_eq, pubkey, key_eq, peerName, name_eq, text, text_eq,
      direction, direction_eq, payloadType, type_eq, ts, ts_eq, -⟩ := read
    refine ⟨by rw [key_eq]; rfl, ?_⟩
    simp only [Json.directFields, List.forall_mem_cons, id_eq, identity_eq, name_eq, text_eq,
      direction_eq, type_eq, ts_eq, Option.isSome_some, true_and]
    exact fun _ member => absurd member List.not_mem_nil
  · rintro ⟨sender, optional⟩
    simp only [Json.directFields, List.forall_mem_cons, Option.isSome_iff_exists] at sender optional
    obtain ⟨pubkey, key_eq⟩ := sender
    obtain ⟨⟨id, id_eq⟩, ⟨identityId, identity_eq⟩, ⟨peerName, name_eq⟩, ⟨text, text_eq⟩,
      ⟨direction, direction_eq⟩, ⟨payloadType, type_eq⟩, ⟨ts, ts_eq⟩, -⟩ := optional
    simp only [DmEvent.fromValue, id_eq, identity_eq, key_eq, name_eq, text_eq, direction_eq,
      type_eq, ts_eq, Option.bind_eq_bind, Option.bind_some, Option.isSome_some]

/-- The classifier takes a value for a received message exactly when it reads as one. -/
theorem received_iff (eventName : Text) (value : Json) :
    (∃ dm, classify eventName value = .dmReceived dm) ↔ value.ReadsAsDirect := by
  constructor
  · rintro ⟨dm, classified⟩
    have inbound := inbound_of_classify classified
    obtain ⟨sender_eq, text_eq⟩ := requiredText_of_fromValue inbound.fields
    have shown : (dm.text.isSome && !dm.peerPubkeyHex.isEmpty) = true := by
      simp only [classify] at classified
      split at classified
      · split at classified <;> cases classified
      · split at classified
        · rename_i found
          split at found
          · obtain ⟨-, accepted⟩ := Option.filter_eq_some_iff.mp found
            cases classified
            exact accepted
          · cases found
        · cases classified
    simp only [Bool.and_eq_true, Bool.not_eq_true', List.isEmpty_eq_false_iff] at shown
    refine ⟨inbound.direction, inbound.type, ?_, ?_, ?_⟩
    · rw [← isSome_fromValue_iff, inbound.fields]
      rfl
    · rw [sender_eq]
      simpa using shown.2
    · rw [text_eq]
      intro missing
      rw [Option.some.inj missing] at shown
      cases shown.1
  · rintro ⟨direction, type, fits, sender, text⟩
    obtain ⟨dm, read⟩ := Option.isSome_iff_exists.mp ((isSome_fromValue_iff value).mpr fits)
    obtain ⟨sender_eq, text_eq⟩ := requiredText_of_fromValue read
    have accepted : (dm.text.isSome && !dm.peerPubkeyHex.isEmpty) = true := by
      rw [sender_eq] at sender
      rw [text_eq] at text
      have some_text : dm.text.isSome = true := by
        rw [Option.isSome_iff_ne_none]
        exact fun missing => text (by rw [missing])
      have some_sender : dm.peerPubkeyHex ≠ [] := fun empty => sender (by rw [empty])
      simp [some_text, some_sender]
    have not_echo : ¬ (value.lowerField "direction".toList = "out".toList ∨
        "sent_".toList.isPrefixOf (value.lowerField "type".toList) = true) := by
      rw [direction]
      obtain type | type := type <;> rw [type] <;> decide
    refine ⟨dm, ?_⟩
    simp only [classify, if_neg not_echo, if_pos (And.intro type direction), read]
    rw [Option.filter_some, if_pos accepted]

/-- A channel message is not taken for a received message, and whatever the whitelist and the
registry changes nothing in the daemon, exactly when its other fields do not read as a direct
message. -/
theorem channel_message_ignored_iff {reader : JsonReader} {data : Text} {value : Json}
    (read : reader.fromStr data = some value) (_channel : value.OnChannel) (eventName : Text) :
    ((∀ dm, parseEvent reader eventName data ≠ some (.dmReceived dm)) ∧
        ∀ (daemon : Daemon) (terminal : Option Terminal) (unixSecs : Nat),
          daemon.frame reader eventName data terminal unixSecs = daemon) ↔
      ¬ value.ReadsAsDirect := by
  have parsed : parseEvent reader eventName data = some (classify eventName value) := by
    simp only [parseEvent, read]
  rw [← received_iff eventName value, parsed]
  constructor
  · rintro ⟨other, -⟩ ⟨dm, classified⟩
    exact other dm (by rw [classified])
  · intro other
    have not_received : ∀ dm, some (classify eventName value) ≠ some (.dmReceived dm) :=
      fun dm same => other ⟨dm, Option.some.inj same⟩
    refine ⟨not_received, fun daemon terminal unixSecs => ?_⟩
    rw [Daemon.frame, frameEvent]
    split
    · rename_i panics
      split at panics
      · cases panics
      · rw [parsed] at panics
        cases panics
    · rename_i dm received
      split at received
      · cases received
      · rw [parsed] at received
        exact (not_received dm received).elim
    · rfl

namespace Daemon

/-- The fields of a channel message from the sample peer. -/
def channelValue (text : Json) : Json :=
  .object [("channel_id".toList, .number "7".toList), ("direction".toList, .string "in".toList),
    ("peer_pubkey_hex".toList, .string sampleKey), ("text".toList, text),
    ("type".toList, .string "dm".toList)]

/-- The data of a channel message from the sample peer, up to the value of its text. -/
def channelData (text : Text) : Text :=
  "\x7b\"channel_id\":7,\"type\":\"dm\",\"direction\":\"in\",\"peer_pubkey_hex\":\"".toList ++
    sampleKey ++ "\",\"text\":".toList ++ text ++ "\x7d".toList

/-- A reader that knows a channel message with a text and one whose text is null. -/
def channelReader : JsonReader where
  fromStr data :=
    if data = channelData "\"ls\"".toList then some (channelValue (.string "ls".toList))
    else if data = channelData "null".toList then some (channelValue .null)
    else none
  debug := true

theorem read_channel_text :
    channelReader.fromStr (channelData "\"ls\"".toList) =
      some (channelValue (.string "ls".toList)) := by
  simp only [channelReader, ↓reduceIte]

theorem read_channel_null :
    channelReader.fromStr (channelData "null".toList) = some (channelValue .null) := by
  have other : channelData "null".toList ≠ channelData "\"ls\"".toList := by decide +kernel
  simp only [channelReader, if_neg other, ↓reduceIte]

/-- A channel message without a text is ignored. -/
theorem channel_message_without_text :
    ((∀ dm, parseEvent channelReader "message".toList (channelData "null".toList) ≠
          some (.dmReceived dm)) ∧
        ∀ (daemon : Daemon) (terminal : Option Terminal) (unixSecs : Nat),
          daemon.frame channelReader "message".toList (channelData "null".toList) terminal
            unixSecs = daemon) ↔
      ¬ (channelValue .null).ReadsAsDirect :=
  channel_message_ignored_iff read_channel_null ⟨.number "7".toList, rfl, nofun⟩ _

/-- A channel message of a whitelisted peer is typed into its shell. -/
theorem channel_message_drives_shell :
    ¬ ∀ (reader : JsonReader) (data : Text) (value : Json), reader.fromStr data = some value →
      value.OnChannel → ∀ eventName whitelist terminal later final,
        run (step id reader) (new .default .default whitelist)
            (.frame eventName data (some terminal) 0 :: .send 0 :: later) = some final →
          (∀ action ∈ later, ∃ act, action = .session 0 act) →
            ∀ session ∈ final.sessions, session.pty.input.items = [] := by
  intro ignored
  let poll : DaemonAction := .session 0 (.actor (.plain 0 0))
  let arrive : DaemonAction := .frame "message".toList (channelData "\"ls\"".toList)
    (some { inSize := 4096, outSize := 4096 }) 0
  have typed : ((run (step id channelReader) sample
      [arrive, .send 0, poll, poll, poll, poll]).map fun daemon =>
        daemon.sessions.map fun session => session.pty.input.items) =
          some [[bytes "ls\n".toList]] := by decide +kernel
  obtain ⟨final, ran, items_eq⟩ := Option.map_eq_some_iff.mp typed
  have empty := ignored channelReader _ _ read_channel_text ⟨.number "7".toList, rfl, nofun⟩ _
    sampleWhitelist _ [poll, poll, poll, poll] final ran (by simp [poll])
  have shown : [bytes "ls\n".toList] ∈ final.sessions.map fun session => session.pty.input.items := by
    rw [items_eq]
    exact List.mem_singleton.mpr rfl
  obtain ⟨session, member, session_items⟩ := List.mem_map.mp shown
  rw [empty session member] at session_items
  cases session_items

end Daemon

end Loraterm
