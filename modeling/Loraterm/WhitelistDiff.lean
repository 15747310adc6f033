import Loraterm.Library.MapDiff
import Loraterm.WhitelistLoad

/-!
# The difference of two whitelists

`diff_whitelist` takes two set differences of keys and a lookup for each new entry.  On whitelists
without repeated keys its three lists are the difference of the two whitelists as maps.
-/

namespace Loraterm

open Utf8Text

/-! ## Equality of entries -/

/-- `ValidatedPeer::eq`, field by field. -/
def ValidatedPeer.eq (self other : ValidatedPeer) : Bool :=
  self.pubkey == other.pubkey && self.nickname == other.nickname &&
    self.idleTimeout == other.idleTimeout && self.dmMaxChars == other.dmMaxChars

/-- The equality of the source leaves out no field. -/
theorem ValidatedPeer.eq_iff (self other : ValidatedPeer) :
    self.eq other = true ↔ self = other := by
  cases self
  cases other
  simp [ValidatedPeer.eq, and_assoc]

/-- Entries of one key differ in a setting. -/
theorem ValidatedPeer.ne_iff {self other : ValidatedPeer} (same : self.pubkey = other.pubkey) :
    self ≠ other ↔ self.nickname ≠ other.nickname ∨ self.idleTimeout ≠ other.idleTimeout ∨
      self.dmMaxChars ≠ other.dmMaxChars := by
  cases self
  cases other
  simp only [ne_eq, ValidatedPeer.mk.injEq, not_and_or] at same ⊢
  simp [same]

/-- The loop over the new entries compares with the equality of the source. -/
theorem changed_eq (old new : Whitelist) :
    (diffWhitelist old new).changed = new.entries.filterMap fun newEntry =>
      (old.get newEntry.pubkey).bind fun oldEntry =>
        if !oldEntry.eq newEntry then some newEntry.pubkey else none := by
  simp only [diffWhitelist, ne_eq, ← ValidatedPeer.eq_iff, Bool.not_eq_true, Bool.not_eq_eq_eq_not,
    Bool.not_true]

/-! ## The three lists as sets -/

theorem isSome_get_iff {whitelist : Whitelist} {key : Text} :
    (whitelist.get key).isSome ↔ key ∈ whitelist.keys := by
  rw [Whitelist.mem_keys_iff, Option.isSome_iff_exists]

theorem get_eq_none_iff {whitelist : Whitelist} {key : Text} :
    whitelist.get key = none ↔ key ∉ whitelist.keys := by
  rw [← isSome_get_iff, Option.not_isSome_iff_eq_none]

theorem mem_added_iff {old new : Whitelist} {key : Text} :
    key ∈ (diffWhitelist old new).added ↔ key ∈ new.keys ∧ key ∉ old.keys := by
  simp [diffWhitelist]

theorem mem_changed_iff {old new : Whitelist} (newUnique : new.keys.Nodup) {key : Text} :
    key ∈ (diffWhitelist old new).changed ↔ key ∈ MapDiff.changed old.get new.get := by
  simp only [diffWhitelist, List.mem_filterMap, Option.bind_eq_some_iff, MapDiff.changed,
    Set.mem_ofPred_eq]
  constructor
  · rintro ⟨newEntry, listed, oldEntry, found, differ⟩
    split at differ
    · rename_i entries_differ
      rw [Option.some.injEq] at differ
      subst differ
      exact ⟨oldEntry, newEntry, found, (Whitelist.get_eq_some_iff newUnique).mpr ⟨listed, rfl⟩,
        entries_differ⟩
    · simp at differ
  · rintro ⟨oldEntry, newEntry, found, new_found, differ⟩
    obtain ⟨listed, rfl⟩ := (Whitelist.get_eq_some_iff newUnique).mp new_found
    exact ⟨newEntry, listed, oldEntry, found, if_pos differ⟩

theorem mem_removed_iff_map {old new : Whitelist} {key : Text} :
    key ∈ (diffWhitelist old new).removed ↔ key ∈ MapDiff.removed old.get new.get := by
  simp only [mem_removed_iff, MapDiff.removed, Set.mem_ofPred_eq, isSome_get_iff, get_eq_none_iff]

theorem mem_added_iff_map {old new : Whitelist} {key : Text} :
    key ∈ (diffWhitelist old new).added ↔ key ∈ MapDiff.added old.get new.get := by
  simp only [mem_added_iff, MapDiff.added, MapDiff.removed, Set.mem_ofPred_eq, isSome_get_iff,
    get_eq_none_iff]

/-- A key is changed when its two entries differ in some setting. -/
theorem mem_changed_iff_fields {old new : Whitelist} (oldUnique : old.keys.Nodup)
    (newUnique : new.keys.Nodup) (key : Text) :
    key ∈ (diffWhitelist old new).changed ↔
      ∃ before ∈ old.entries, ∃ after ∈ new.entries, before.pubkey = key ∧ after.pubkey = key ∧
        (before.nickname ≠ after.nickname ∨ before.idleTimeout ≠ after.idleTimeout ∨
          before.dmMaxChars ≠ after.dmMaxChars) := by
  rw [mem_changed_iff newUnique]
  constructor
  · rintro ⟨before, after, found, new_found, differ⟩
    obtain ⟨listed, rfl⟩ := (Whitelist.get_eq_some_iff oldUnique).mp found
    obtain ⟨new_listed, same⟩ := (Whitelist.get_eq_some_iff newUnique).mp new_found
    exact ⟨before, listed, after, new_listed, rfl, same,
      (ValidatedPeer.ne_iff same.symm).mp differ⟩
  · rintro ⟨before, listed, after, new_listed, rfl, same, differ⟩
    exact ⟨before, after, (Whitelist.get_eq_some_iff oldUnique).mpr ⟨listed, rfl⟩,
      (Whitelist.get_eq_some_iff newUnique).mpr ⟨new_listed, same⟩,
      (ValidatedPeer.ne_iff same.symm).mpr differ⟩

/-- The loop reports each new entry at most once, under its own key. -/
theorem changed_sublist (old new : Whitelist) :
    (diffWhitelist old new).changed.Sublist new.keys := by
  simp only [diffWhitelist, Whitelist.keys]
  induction new.entries with
  | nil => exact List.Sublist.slnil
  | cons entry entries induction =>
      rw [List.map_cons, List.filterMap_cons]
      split
      · exact induction.cons entry.pubkey
      · rename_i reported
        obtain ⟨before, -, reported⟩ := Option.bind_eq_some_iff.mp reported
        split at reported
        · rw [Option.some.injEq] at reported
          rw [← reported]
          exact induction.cons_cons entry.pubkey
        · simp at reported

/-- No key is in two of the lists or twice in one. -/
theorem nodup_diff {old new : Whitelist} (newUnique : new.keys.Nodup) :
    ((diffWhitelist old new).removed ++ (diffWhitelist old new).added ++
      (diffWhitelist old new).changed).Nodup := by
  have removed_nodup : (diffWhitelist old new).removed.Nodup := (List.nodup_dedup _).filter _
  have added_nodup : (diffWhitelist old new).added.Nodup := (List.nodup_dedup _).filter _
  have changed_nodup := newUnique.sublist (changed_sublist old new)
  refine (removed_nodup.append added_nodup ?_).append changed_nodup ?_
  · intro key gone came
    exact Set.disjoint_left.mp (MapDiff.disjoint_removed_added old.get new.get)
      (mem_removed_iff_map.mp gone) (mem_added_iff_map.mp came)
  · intro key first other
    have changed := (mem_changed_iff newUnique).mp other
    rcases List.mem_append.mp first with gone | came
    · exact Set.disjoint_left.mp (MapDiff.disjoint_removed_changed old.get new.get)
        (mem_removed_iff_map.mp gone) changed
    · exact Set.disjoint_left.mp (MapDiff.disjoint_added_changed old.get new.get)
        (mem_added_iff_map.mp came) changed

/-! ## The difference as it is returned -/

/-- A difference as the source may return it: hash sets give `added` and `removed` in any order. -/
structure ReturnedDiff (old new : Whitelist) (diff : WhitelistDiff) : Prop where
  added : diff.added.Perm (diffWhitelist old new).added
  removed : diff.removed.Perm (diffWhitelist old new).removed
  changed : diff.changed = (diffWhitelist old new).changed

/-- The lists sort the keys of two whitelists by what became of them. -/
structure ExactDiff (old new : Whitelist) (diff : WhitelistDiff) : Prop where
  removed_iff : ∀ key, key ∈ diff.removed ↔ key ∈ old.keys ∧ key ∉ new.keys
  added_iff : ∀ key, key ∈ diff.added ↔ key ∈ new.keys ∧ key ∉ old.keys
  changed_iff : ∀ key, key ∈ diff.changed ↔
    ∃ before ∈ old.entries, ∃ after ∈ new.entries, before.pubkey = key ∧ after.pubkey = key ∧
      (before.nickname ≠ after.nickname ∨ before.idleTimeout ≠ after.idleTimeout ∨
        before.dmMaxChars ≠ after.dmMaxChars)
  /-- No key is in two lists or twice in one. -/
  nodup : (diff.removed ++ diff.added ++ diff.changed).Nodup
  /-- A key in none of the lists has one entry in both whitelists. -/
  kept : ∀ key, key ∈ old.keys ∨ key ∈ new.keys →
    key ∉ diff.removed → key ∉ diff.added → key ∉ diff.changed →
      ∃ entry, old.get key = some entry ∧ new.get key = some entry
  /-- Applied to the old whitelist, the lists give the new one. -/
  patched : MapDiff.patch old.get new.get {key | key ∈ diff.removed}
    ({key | key ∈ diff.added} ∪ {key | key ∈ diff.changed}) = new.get

theorem ReturnedDiff.sets_eq {old new : Whitelist} {diff : WhitelistDiff}
    (newUnique : new.keys.Nodup) (returned : ReturnedDiff old new diff) :
    {key | key ∈ diff.removed} = MapDiff.removed old.get new.get ∧
    {key | key ∈ diff.added} = MapDiff.added old.get new.get ∧
    {key | key ∈ diff.changed} = MapDiff.changed old.get new.get := by
  refine ⟨Set.ext fun key => ?_, Set.ext fun key => ?_, Set.ext fun key => ?_⟩
  · exact returned.removed.mem_iff.trans mem_removed_iff_map
  · exact returned.added.mem_iff.trans mem_added_iff_map
  · rw [Set.mem_ofPred_eq, returned.changed, mem_changed_iff newUnique]

theorem ReturnedDiff.exact {old new : Whitelist} {diff : WhitelistDiff}
    (oldUnique : old.keys.Nodup) (newUnique : new.keys.Nodup)
    (returned : ReturnedDiff old new diff) : ExactDiff old new diff where
  removed_iff key := returned.removed.mem_iff.trans mem_removed_iff
  added_iff key := returned.added.mem_iff.trans mem_added_iff
  changed_iff key := by
    rw [returned.changed]
    exact mem_changed_iff_fields oldUnique newUnique key
  nodup := by
    have same_keys := (returned.removed.append returned.added).append
      (List.Perm.of_eq returned.changed)
    exact same_keys.nodup_iff.mpr (nodup_diff newUnique)
  kept key listed not_removed not_added not_changed := by
    obtain ⟨removed_set, added_set, changed_set⟩ := returned.sets_eq newUnique
    have same : old.get key = new.get key := by
      refine MapDiff.eq_of_notMem old.get new.get ?_ ?_ ?_
      · exact removed_set ▸ not_removed
      · exact added_set ▸ not_added
      · exact changed_set ▸ not_changed
    rw [Whitelist.mem_keys_iff, Whitelist.mem_keys_iff, ← same, or_self] at listed
    obtain ⟨entry, found⟩ := listed
    exact ⟨entry, found, same ▸ found⟩
  patched := by
    obtain ⟨removed_set, added_set, changed_set⟩ := returned.sets_eq newUnique
    rw [removed_set, added_set, changed_set, MapDiff.patch_eq]

/-- The changed keys do not depend on which whitelist is the older. -/
theorem changed_swap {old new : Whitelist} (oldUnique : old.keys.Nodup)
    (newUnique : new.keys.Nodup) :
    (diffWhitelist new old).changed.Perm (diffWhitelist old new).changed := by
  refine (List.perm_ext_iff_of_nodup (oldUnique.sublist (changed_sublist new old))
    (newUnique.sublist (changed_sublist old new))).mpr fun key => ?_
  rw [mem_changed_iff oldUnique, mem_changed_iff newUnique, MapDiff.changed_swap]

/-- Two loaded whitelists have an exact difference. -/
theorem ReturnedDiff.exact_of_load {parseToml : Text → Except Text WhitelistFile}
    {path : Text} {oldRaw newRaw : Except Text Text} {old new : Whitelist} {diff : WhitelistDiff}
    (oldLoaded : Whitelist.load parseToml path oldRaw = .ok old)
    (newLoaded : Whitelist.load parseToml path newRaw = .ok new)
    (returned : ReturnedDiff old new diff) : ExactDiff old new diff :=
  returned.exact (Whitelist.nodup_keys_of_load oldLoaded) (Whitelist.nodup_keys_of_load newLoaded)

/-- On whitelists without repeated keys the difference is exact, and exchanging the whitelists
exchanges what is added and removed. -/
theorem diffWhitelist_exact {old new : Whitelist} (oldUnique : old.keys.Nodup)
    (newUnique : new.keys.Nodup) {diff exchanged : WhitelistDiff}
    (returned : ReturnedDiff old new diff) (returned_exchanged : ReturnedDiff new old exchanged) :
    ExactDiff old new diff ∧ exchanged.added.Perm diff.removed ∧
      exchanged.removed.Perm diff.added ∧ exchanged.changed.Perm diff.changed := by
  refine ⟨returned.exact oldUnique newUnique, ?_, ?_, ?_⟩
  · exact returned_exchanged.added.trans returned.removed.symm
  · exact returned_exchanged.removed.trans returned.added.symm
  · rw [returned_exchanged.changed, returned.changed]
    exact changed_swap oldUnique newUnique

/-- One entry renamed, one dropped and one new. -/
theorem diffWhitelist_exact_sample :
    let phone : ValidatedPeer := ⟨"a".toList, some "phone".toList, none, none⟩
    let handheld : ValidatedPeer := ⟨"a".toList, some "handheld".toList, none, none⟩
    let old : Whitelist := ⟨[phone, ⟨"b".toList, none, none, none⟩]⟩
    let new : Whitelist := ⟨[handheld, ⟨"c".toList, none, none, none⟩]⟩
    diffWhitelist old new = ⟨["c".toList], ["b".toList], ["a".toList]⟩ ∧
      ExactDiff old new (diffWhitelist old new) :=
  ⟨by decide +kernel, (diffWhitelist_exact (by decide +kernel) (by decide +kernel)
    ⟨.refl _, .refl _, rfl⟩ ⟨.refl _, .refl _, rfl⟩).1⟩

end Loraterm
