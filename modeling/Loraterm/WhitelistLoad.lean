import Loraterm.TrustBoundary

/-!
# Loading the whitelist and matching senders

`Whitelist::load` trims and lower-cases the keys of the file; the dispatcher lower-cases the sender
of a message without trimming.  Loading succeeds on distinct well-formed keys only, and then the
two agree on whose settings apply.
-/

namespace Loraterm

open Utf8Text

/-! ## Keys -/

/-- A key in either case: 64 hexadecimal digits. -/
def HexKey (key : Text) : Prop := key.length = 64 ∧ ∀ char ∈ key, isHexDigit char = true

instance (key : Text) : Decidable (HexKey key) := inferInstanceAs (Decidable (_ ∧ _))

/-- The key of an entry as it is stored. -/
def PeerEntry.key (entry : PeerEntry) : Text := asciiLower (trim entry.pubkey)

/-- The whitelist entry made of a file entry and the defaults of its file. -/
def PeerEntry.validated (file : WhitelistFile) (entry : PeerEntry) : ValidatedPeer where
  pubkey := entry.key
  nickname := entry.nickname
  idleTimeout := entry.idleTimeout <|> file.defaultIdleTimeout
  dmMaxChars := entry.dmMaxChars <|> file.defaultDmMaxChars

/-- The byte count and the digit test of the source are met by 64 hexadecimal digits only. -/
theorem hexKey_iff (key : Text) : HexKey key ↔ byteLen key = 64 ∧ key.all isHexDigit = true := by
  rw [List.all_eq_true]
  constructor
  · rintro ⟨length_eq, digits⟩
    exact ⟨by rw [byteLen_of_isHexDigit (List.all_eq_true.mpr digits), length_eq], digits⟩
  · rintro ⟨length_eq, digits⟩
    exact ⟨by rw [← length_eq, byteLen_of_isHexDigit (List.all_eq_true.mpr digits)], digits⟩

theorem hexKey_asciiLower (key : Text) : HexKey (asciiLower key) ↔ HexKey key := by
  simp [HexKey, asciiLower, isHexDigit_toLower]

theorem canonicalKey_asciiLower {key : Text} (hex : HexKey key) :
    CanonicalKey (asciiLower key) := by
  refine ⟨by simpa [asciiLower] using hex.1, fun char member => ?_⟩
  have digit := ((hexKey_asciiLower key).mpr hex).2 char member
  obtain ⟨original, -, rfl⟩ := List.mem_map.mp member
  exact isLowerHexDigit_toLower digit

theorem validatePubkey_of_hex {raw : Text} (hex : HexKey (trim raw)) :
    validatePubkey raw = .ok (asciiLower (trim raw)) := by
  obtain ⟨length_eq, digits⟩ := (hexKey_iff _).mp hex
  simp only [validatePubkey, length_eq, ne_eq, not_true_eq_false, if_false, digits, if_true]

theorem validatePubkey_of_not_hex {raw : Text} (not_hex : ¬ HexKey (trim raw)) :
    ∃ reason, validatePubkey raw = .error reason := by
  simp only [validatePubkey]
  split
  · exact ⟨_, rfl⟩
  · rename_i length_eq
    split
    · rename_i digits
      exact (not_hex ((hexKey_iff _).mpr ⟨not_not.mp length_eq, digits⟩)).elim
    · exact ⟨_, rfl⟩

/-! ## Loading -/

/-- Entries that load: well-formed keys, each one new. -/
structure Loadable (seen : List Text) (peers : List PeerEntry) : Prop where
  hex : ∀ entry ∈ peers, HexKey (trim entry.pubkey)
  distinct : (peers.map PeerEntry.key).Nodup
  unseen : ∀ entry ∈ peers, entry.key ∉ seen

/-- The error of an entry that follows entries with some keys. -/
inductive EntryFault (path : Text) (index : Nat) (earlier : List Text) (entry : PeerEntry) :
    ConfigError → Prop
  | invalid {reason : Text} (not_hex : ¬ HexKey (trim entry.pubkey))
      (said : validatePubkey entry.pubkey = .error reason) :
      EntryFault path index earlier entry (.invalidPubkey path index reason)
  | duplicate (hex : HexKey (trim entry.pubkey)) (repeated : entry.key ∈ earlier) :
      EntryFault path index earlier entry (.duplicatePubkey path entry.key)

/-- The error is that of the first entry that is invalid or repeats an earlier one. -/
def FirstFault (path : Text) (index : Nat) (seen : List Text) (peers : List PeerEntry)
    (error : ConfigError) : Prop :=
  ∃ earlier entry later, peers = earlier ++ entry :: later ∧ Loadable seen earlier ∧
    EntryFault path (index + earlier.length) (seen ++ earlier.map PeerEntry.key) entry error

theorem not_loadable_of_firstFault {path : Text} {index : Nat} {seen : List Text}
    {peers : List PeerEntry} {error : ConfigError}
    (fault : FirstFault path index seen peers error) : ¬ Loadable seen peers := by
  rintro ⟨hex, distinct, unseen⟩
  obtain ⟨earlier, entry, later, rfl, -, fault⟩ := fault
  have member : entry ∈ earlier ++ entry :: later := by simp
  cases fault with
  | invalid not_hex said => exact not_hex (hex entry member)
  | duplicate _ repeated =>
      obtain repeated | repeated := List.mem_append.mp repeated
      · exact unseen entry member repeated
      · rw [List.map_append, List.nodup_append] at distinct
        exact distinct.2.2 _ repeated entry.key (by simp) rfl

namespace Whitelist

/-- One turn of the loop on an entry that is accepted. -/
theorem validateEntries_cons {path : Text} {file : WhitelistFile} {index : Nat}
    {seen : List Text} {entry : PeerEntry} (hex : HexKey (trim entry.pubkey))
    (unseen : entry.key ∉ seen) (peers : List PeerEntry) :
    validateEntries path file index seen (entry :: peers) =
      (validateEntries path file (index + 1) (entry.key :: seen) peers).map
        (entry.validated file :: ·) := by
  rw [validateEntries, validatePubkey_of_hex hex]
  exact if_neg unseen

theorem loadable_cons {seen : List Text} {entry : PeerEntry} {peers : List PeerEntry}
    (hex : HexKey (trim entry.pubkey)) (unseen : entry.key ∉ seen)
    (rest : Loadable (entry.key :: seen) peers) : Loadable seen (entry :: peers) where
  hex := List.forall_mem_cons.mpr ⟨hex, rest.hex⟩
  distinct := by
    refine List.nodup_cons.mpr ⟨fun repeated => ?_, rest.distinct⟩
    obtain ⟨other, member, same⟩ := List.mem_map.mp repeated
    exact rest.unseen other member (by rw [same]; exact List.mem_cons_self)
  unseen := List.forall_mem_cons.mpr
    ⟨unseen, fun other member known => rest.unseen other member (List.mem_cons_of_mem _ known)⟩

/-- The loop returns the validated entries, or stops at the first fault. -/
theorem validateEntries_cases (path : Text) (file : WhitelistFile) (index : Nat)
    (seen : List Text) (peers : List PeerEntry) :
    (Loadable seen peers ∧
        validateEntries path file index seen peers = .ok (peers.map (·.validated file))) ∨
      ∃ error, FirstFault path index seen peers error ∧
        validateEntries path file index seen peers = .error error := by
  induction peers generalizing index seen with
  | nil => exact .inl ⟨⟨by simp, by simp, by simp⟩, rfl⟩
  | cons entry peers ih =>
      by_cases hex : HexKey (trim entry.pubkey)
      · by_cases known : entry.key ∈ seen
        · refine .inr ⟨.duplicatePubkey path entry.key,
            ⟨[], entry, peers, rfl, ⟨by simp, by simp, by simp⟩, .duplicate hex (by simpa)⟩, ?_⟩
          rw [validateEntries, validatePubkey_of_hex hex]
          exact if_pos known
        · rw [validateEntries_cons hex known]
          obtain ⟨loadable, returned⟩ | ⟨error, fault, stopped⟩ := ih (index + 1) (entry.key :: seen)
          · exact .inl ⟨loadable_cons hex known loadable, by rw [returned]; rfl⟩
          · obtain ⟨earlier, faulty, later, rfl, loadable, fault⟩ := fault
            refine .inr ⟨error, ⟨entry :: earlier, faulty, later, rfl,
              loadable_cons hex known loadable, ?_⟩, by rw [stopped]; rfl⟩
            have place : index + 1 + earlier.length = index + (entry :: earlier).length := by
              simp only [List.length_cons]
              omega
            rw [place] at fault
            cases fault with
            | invalid not_hex said => exact .invalid not_hex said
            | duplicate faulty_hex repeated =>
                refine .duplicate faulty_hex ?_
                simp only [List.mem_append, List.mem_cons, List.map_cons] at repeated ⊢
                tauto
      · obtain ⟨reason, said⟩ := validatePubkey_of_not_hex hex
        refine .inr ⟨.invalidPubkey path index reason,
          ⟨[], entry, peers, rfl, ⟨by simp, by simp, by simp⟩, .invalid hex said⟩, ?_⟩
        rw [validateEntries, said]

section Load

variable {parseToml : Text → Except Text WhitelistFile} {path contents : Text}
  {file : WhitelistFile}

theorem load_of_parsed (parsed : parseToml contents = .ok file) :
    load parseToml path (.ok contents) =
      (validateEntries path file 0 [] file.peers).map fun entries => { entries } := by
  simp only [load, parsed]

/-- A parsed file loads with its entries in order, or fails with its first fault. -/
theorem load_cases (parsed : parseToml contents = .ok file) :
    (Loadable [] file.peers ∧ load parseToml path (.ok contents) =
        .ok { entries := file.peers.map (·.validated file) }) ∨
      ∃ error, FirstFault path 0 [] file.peers error ∧
        load parseToml path (.ok contents) = .error error := by
  rw [load_of_parsed parsed]
  obtain ⟨loadable, returned⟩ | ⟨error, fault, stopped⟩ := validateEntries_cases path file 0 [] file.peers
  · exact .inl ⟨loadable, by rw [returned]; rfl⟩
  · exact .inr ⟨error, fault, by rw [stopped]; rfl⟩

end Load

/-- The keys of the loaded entries are those of the file, made canonical. -/
theorem nodup_keys_of_loadable {whitelist : Whitelist} {file : WhitelistFile}
    (loadable : Loadable [] file.peers)
    (loaded : whitelist.entries = file.peers.map (·.validated file)) : whitelist.keys.Nodup := by
  have keys_eq : whitelist.keys = file.peers.map PeerEntry.key := by
    rw [keys, loaded, List.map_map]
    rfl
  rw [keys_eq]
  exact loadable.distinct

/-- Whatever loads has no key twice. -/
theorem nodup_keys_of_load {parseToml : Text → Except Text WhitelistFile} {path : Text}
    {raw : Except Text Text} {whitelist : Whitelist}
    (loaded : load parseToml path raw = .ok whitelist) : whitelist.keys.Nodup := by
  cases raw with
  | error source => simp [load] at loaded
  | ok contents =>
      cases parsed : parseToml contents with
      | error source => simp [load, parsed] at loaded
      | ok file =>
          obtain ⟨loadable, returned⟩ | ⟨error, -, stopped⟩ := load_cases parsed
          · obtain rfl := Except.ok.inj (returned.symm.trans loaded)
            exact nodup_keys_of_loadable loadable rfl
          · rw [stopped] at loaded
            cases loaded

/-! ## Matching -/

/-- In a whitelist of distinct keys the first entry of a key is the only one. -/
theorem get_eq_some_iff {whitelist : Whitelist} (distinct : whitelist.keys.Nodup) {key : Text}
    {entry : ValidatedPeer} :
    whitelist.get key = some entry ↔ entry ∈ whitelist.entries ∧ entry.pubkey = key := by
  constructor
  · intro found
    exact ⟨List.mem_of_find?_eq_some found, pubkey_of_get found⟩
  · rintro ⟨member, rfl⟩
    obtain ⟨first, found⟩ :=
      mem_keys_iff.mp (List.mem_map_of_mem (f := ValidatedPeer.pubkey) member)
    have same := List.inj_on_of_nodup_map distinct (List.mem_of_find?_eq_some found) member
      (pubkey_of_get found)
    rw [found, same]

end Whitelist

namespace Daemon

/-- The checks of a dispatch let a message through, with the settings of a whitelist entry. -/
def Authorises (daemon : Daemon) (dm : DmEvent) (entry : ValidatedPeer) : Prop :=
  ∃ key, senderKey dm = some key ∧ daemon.whitelist.get key = some entry

theorem senderKey_eq_some_iff {dm : DmEvent} {key : Text} :
    senderKey dm = some key ↔ HexKey dm.peerPubkeyHex ∧ asciiLower dm.peerPubkeyHex = key := by
  rw [← hexKey_asciiLower, hexKey_iff]
  simp only [senderKey]
  split
  · rename_i well_formed
    simp [well_formed]
  · rename_i malformed
    exact iff_of_false (by simp) fun well_formed => malformed well_formed.1

/-- A message goes on to the session of its peer exactly when its sender is authorised. -/
theorem dispatch_cases (daemon : Daemon) {dm : DmEvent} {text : Text} (text_eq : dm.text = some text)
    (terminal : Option Terminal) (unixSecs : Nat) :
    (∀ entry, daemon.Authorises dm entry →
        daemon.dispatch dm terminal unixSecs =
          (daemon.dropStale entry.pubkey).ensure entry entry.pubkey text terminal unixSecs) ∧
      ((∀ entry, ¬ daemon.Authorises dm entry) → daemon.dispatch dm terminal unixSecs = daemon) := by
  constructor
  · rintro entry ⟨key, key_eq, found⟩
    obtain rfl := Whitelist.pubkey_of_get found
    simp only [dispatch, text_eq, key_eq, found]
  · intro refused
    simp only [dispatch, text_eq]
    split
    · rfl
    · rename_i key key_eq
      split
      · rfl
      · rename_i entry found
        exact (refused entry ⟨key, key_eq, found⟩).elim

/-- With a loaded whitelist a sender is authorised exactly when its key is well formed and one entry
of the file spells the same key. -/
theorem authorises_iff {daemon : Daemon} {file : WhitelistFile} (loadable : Loadable [] file.peers)
    (loaded : daemon.whitelist.entries = file.peers.map (·.validated file)) (dm : DmEvent)
    (entry : ValidatedPeer) :
    daemon.Authorises dm entry ↔
      HexKey dm.peerPubkeyHex ∧ ∃ listed ∈ file.peers, entry = listed.validated file ∧
        listed.key = asciiLower dm.peerPubkeyHex ∧
          ∀ other ∈ file.peers, other.key = asciiLower dm.peerPubkeyHex → other = listed := by
  have distinct := Whitelist.nodup_keys_of_loadable loadable loaded
  simp only [Authorises, senderKey_eq_some_iff, Whitelist.get_eq_some_iff distinct, loaded,
    List.mem_map]
  constructor
  · rintro ⟨key, ⟨hex, rfl⟩, ⟨listed, member, rfl⟩, same⟩
    refine ⟨hex, listed, member, rfl, same, fun other other_member other_same => ?_⟩
    exact List.inj_on_of_nodup_map loadable.distinct other_member member (other_same.trans same.symm)
  · rintro ⟨hex, listed, member, rfl, same, -⟩
    exact ⟨_, ⟨hex, rfl⟩, ⟨listed, member, rfl⟩, same⟩

end Daemon

/-! ## Loading and matching -/

/-- Loading a parsed file succeeds exactly on distinct well-formed keys, with the entries in order,
canonical keys and defaults filled in; it fails with the first faulty entry's error; and a daemon
with the loaded whitelist lets a message through exactly when its sender's key is well formed and
equal, up to case and the trimming of the file, to that of one entry, whose settings apply. -/
theorem whitelist_agrees_with_dispatch {parseToml : Text → Except Text WhitelistFile}
    {contents : Text} {file : WhitelistFile} (parsed : parseToml contents = .ok file)
    (path : Text) :
    ((∃ whitelist, Whitelist.load parseToml path (.ok contents) = .ok whitelist) ↔
        (∀ entry ∈ file.peers, HexKey (trim entry.pubkey)) ∧
          (file.peers.map fun entry => asciiLower (trim entry.pubkey)).Nodup) ∧
      (∀ whitelist, Whitelist.load parseToml path (.ok contents) = .ok whitelist →
        whitelist.entries = file.peers.map (·.validated file) ∧
          (∀ key ∈ whitelist.keys, CanonicalKey key) ∧
            ∀ (daemon : Daemon) (dm : DmEvent), daemon.whitelist = whitelist →
              ∀ entry, daemon.Authorises dm entry ↔
                HexKey dm.peerPubkeyHex ∧ ∃ listed ∈ file.peers, entry = listed.validated file ∧
                  asciiLower (trim listed.pubkey) = asciiLower dm.peerPubkeyHex ∧
                    ∀ other ∈ file.peers,
                      asciiLower (trim other.pubkey) = asciiLower dm.peerPubkeyHex →
                        other = listed) ∧
        (∀ error, Whitelist.load parseToml path (.ok contents) = .error error →
          FirstFault path 0 [] file.peers error) ∧
          ∀ (daemon : Daemon) (dm : DmEvent) text terminal unixSecs, dm.text = some text →
            (∀ entry, daemon.Authorises dm entry →
              daemon.dispatch dm terminal unixSecs =
                (daemon.dropStale entry.pubkey).ensure entry entry.pubkey text terminal unixSecs) ∧
            ((∀ entry, ¬ daemon.Authorises dm entry) →
              daemon.dispatch dm terminal unixSecs = daemon) := by
  refine ⟨?_, ?_, ?_, fun daemon dm text terminal unixSecs text_eq =>
    daemon.dispatch_cases text_eq terminal unixSecs⟩
  · obtain ⟨loadable, returned⟩ | ⟨error, fault, stopped⟩ := Whitelist.load_cases parsed
    · exact ⟨fun _ => ⟨loadable.hex, loadable.distinct⟩, fun _ => ⟨_, returned⟩⟩
    · constructor
      · rintro ⟨whitelist, returned⟩
        rw [stopped] at returned
        cases returned
      · rintro ⟨hex, distinct⟩
        exact (not_loadable_of_firstFault fault ⟨hex, distinct, by simp⟩).elim
  · intro whitelist returned
    obtain ⟨loadable, loaded⟩ | ⟨error, -, stopped⟩ := Whitelist.load_cases parsed
    · obtain rfl := Except.ok.inj (loaded.symm.trans returned)
      refine ⟨rfl, fun key member => ?_, fun daemon dm same => ?_⟩
      · simp only [Whitelist.keys, List.map_map, List.mem_map] at member
        obtain ⟨entry, entry_member, rfl⟩ := member
        exact canonicalKey_asciiLower (loadable.hex entry entry_member)
      · exact Daemon.authorises_iff loadable (by rw [same]) dm
    · rw [stopped] at returned
      cases returned
  · intro error failed
    obtain ⟨-, loaded⟩ | ⟨first, fault, stopped⟩ := Whitelist.load_cases parsed
    · rw [loaded] at failed
      cases failed
    · obtain rfl := Except.error.inj (stopped.symm.trans failed)
      exact fault

/-- A file whose only key is spelt in upper case and with blanks around it. -/
theorem whitelist_agrees_sample :
    let file : WhitelistFile :=
      { defaultIdleTimeout := some (fromSecs 600)
        defaultDmMaxChars := none
        peers := [{ pubkey := " ".toList ++ List.replicate 64 'A' ++ "\n".toList
                    nickname := none
                    idleTimeout := none
                    dmMaxChars := some 40 }] }
    ∃ whitelist, Whitelist.load (fun _ => .ok file) [] (.ok []) = .ok whitelist ∧
      whitelist.entries = file.peers.map (·.validated file) ∧
        ∀ (daemon : Daemon) (dm : DmEvent), daemon.whitelist = whitelist →
          ∀ entry, daemon.Authorises dm entry ↔
            HexKey dm.peerPubkeyHex ∧ ∃ listed ∈ file.peers, entry = listed.validated file ∧
              asciiLower (trim listed.pubkey) = asciiLower dm.peerPubkeyHex ∧
                ∀ other ∈ file.peers,
                  asciiLower (trim other.pubkey) = asciiLower dm.peerPubkeyHex →
                    other = listed := by
  intro file
  obtain ⟨loads, agrees, -⟩ :=
    @whitelist_agrees_with_dispatch (fun _ => .ok file) [] file rfl []
  have trimmed : trim (" ".toList ++ List.replicate 64 'A' ++ "\n".toList) =
      List.replicate 64 'A' := by decide +kernel
  have hex : HexKey (List.replicate 64 'A') := by
    refine ⟨List.length_replicate, fun char member => ?_⟩
    rw [List.eq_of_mem_replicate member]
    decide
  obtain ⟨whitelist, returned⟩ := loads.mpr
    ⟨List.forall_mem_singleton.mpr (by rw [trimmed]; exact hex), List.nodup_singleton _⟩
  obtain ⟨entries_eq, -, matching⟩ := agrees whitelist returned
  exact ⟨whitelist, returned, entries_eq, matching⟩

end Loraterm
