import Loraterm.ChunkerCompletion

/-!
# Numbering

The strings of a flush are the first visible pieces, and a marker when the burst cap dropped some.
Each carries its place and their number in a prefix that can be read back and removed whatever the
body contains.
-/

namespace Loraterm

open Utf8Text

/-! ## Reading a prefix back -/

/-- What follows the first closing bracket and blank. -/
def afterPrefix : Text → Text
  | ']' :: ' ' :: body => body
  | _ :: rest => afterPrefix rest
  | [] => []

/-- The string carries this place and total in its prefix. -/
def Announces (string : Text) (place total : Nat) : Prop :=
  ∃ body, string = chunkPrefix place total ++ body

theorem not_mem_decimal {char : Char} (other : char.isDigit = false) (number : Nat) :
    char ∉ decimal number := by
  intro member
  have digit := Nat.isDigit_of_mem_toDigits (by decide) (by decide) member
  rw [digit] at other
  cases other

theorem decimal_injective {left right : Nat} (same : decimal left = decimal right) :
    left = right := by
  have read := congrArg (fun digits => Nat.ofDigitChars 10 digits 0) same
  simpa [decimal, Nat.ofDigitChars_ten_toDigits] using read

theorem afterPrefix_append {front : Text} (clean : ']' ∉ front) (body : Text) :
    afterPrefix (front ++ ']' :: ' ' :: body) = body := by
  induction front with
  | nil => rfl
  | cons char front ih =>
      rw [List.mem_cons, not_or] at clean
      rw [List.cons_append, afterPrefix, ih clean.2]
      rintro later rfl
      exact (clean.1 rfl).elim

theorem chunkPrefix_eq (place total : Nat) (body : Text) :
    chunkPrefix place total ++ body =
      '[' :: (decimal place ++ '/' :: (decimal total ++ ']' :: ' ' :: body)) := by
  simp [chunkPrefix]

/-- Removing the prefix gives the body back, whatever it is. -/
theorem afterPrefix_chunkPrefix (place total : Nat) (body : Text) :
    afterPrefix (chunkPrefix place total ++ body) = body := by
  have clean : ']' ∉ '[' :: decimal place ++ '/' :: decimal total := by
    have digits := not_mem_decimal (show ']'.isDigit = false by decide)
    simp [digits]
  have joined := afterPrefix_append clean body
  rw [chunkPrefix_eq]
  simpa using joined

/-- Two words cut at their first separator. -/
theorem cut_at_first {separator : Char} {left left' right right' : Text}
    (clean : separator ∉ left) (clean' : separator ∉ left')
    (same : left ++ separator :: right = left' ++ separator :: right') :
    left = left' ∧ right = right' := by
  induction left generalizing left' with
  | nil =>
      cases left' with
      | nil => exact ⟨rfl, (List.cons_eq_cons.mp same).2⟩
      | cons char left' => exact absurd (List.cons_eq_cons.mp same).1 (by simp at clean'; tauto)
  | cons char left ih =>
      cases left' with
      | nil => exact absurd (List.cons_eq_cons.mp same).1 (by simp at clean; tauto)
      | cons char' left' =>
          rw [List.mem_cons, not_or] at clean clean'
          obtain ⟨rfl, rest_eq⟩ := List.cons_eq_cons.mp same
          obtain ⟨rfl, right_eq⟩ := ih clean.2 clean'.2 rest_eq
          exact ⟨rfl, right_eq⟩

/-- The prefix can be read in one way only. -/
theorem chunkPrefix_injective {place total place' total' : Nat} {body body' : Text}
    (same : chunkPrefix place total ++ body = chunkPrefix place' total' ++ body') :
    place = place' ∧ total = total' ∧ body = body' := by
  have slash := not_mem_decimal (show '/'.isDigit = false by decide)
  have bracket := not_mem_decimal (show ']'.isDigit = false by decide)
  rw [chunkPrefix_eq, chunkPrefix_eq] at same
  obtain ⟨place_eq, rest_eq⟩ := cut_at_first (slash _) (slash _) (List.cons_eq_cons.mp same).2
  obtain ⟨total_eq, body_eq⟩ := cut_at_first (bracket _) (bracket _) rest_eq
  exact ⟨decimal_injective place_eq, decimal_injective total_eq, (List.cons_eq_cons.mp body_eq).2⟩

theorem Announces.unique {string : Text} {place total place' total' : Nat}
    (announced : Announces string place total) (announced' : Announces string place' total') :
    place = place' ∧ total = total' := by
  obtain ⟨body, rfl⟩ := announced
  obtain ⟨body', same⟩ := announced'
  obtain ⟨place_eq, total_eq, -⟩ := chunkPrefix_injective same
  exact ⟨place_eq, total_eq⟩

/-! ## The strings of a flush -/

section

variable {opts : ChunkerOpts} {bodies : List Text}

/-- Strings are numbered when numbering is on and there are several. -/
def Numbered (opts : ChunkerOpts) (strings : List Text) : Prop :=
  opts.numberChunks = true ∧ 1 < strings.length

instance (opts : ChunkerOpts) (strings : List Text) : Decidable (Numbered opts strings) :=
  inferInstanceAs (Decidable (_ ∧ _))

theorem numberStrings_of_numbered (numbered : Numbered opts bodies) :
    numberStrings opts bodies =
      bodies.mapIdx fun index body => chunkPrefix (index + 1) bodies.length ++ body := by
  rw [numberStrings, if_pos (by simp [numbered.1, numbered.2])]

theorem numberStrings_of_not_numbered (plain : ¬ Numbered opts bodies) :
    numberStrings opts bodies = bodies := by
  rw [numberStrings, if_neg]
  simpa [Numbered] using plain

theorem getElem?_numberStrings (numbered : Numbered opts bodies) (index : Nat) :
    (numberStrings opts bodies)[index]? =
      bodies[index]?.map (chunkPrefix (index + 1) bodies.length ++ ·) := by
  rw [numberStrings_of_numbered numbered, List.getElem?_mapIdx]

/-- The last string carries the number of all as its place. -/
theorem getLast?_numberStrings {body : Text} (last : bodies.getLast? = some body) :
    (numberStrings opts bodies).getLast? =
      some (if Numbered opts bodies then chunkPrefix bodies.length bodies.length ++ body
        else body) := by
  by_cases numbered : Numbered opts bodies
  · have place_eq : bodies.length - 1 + 1 = bodies.length := by
      have several := numbered.2
      omega
    rw [if_pos numbered, List.getLast?_eq_getElem?, length_numberStrings,
      getElem?_numberStrings numbered, ← List.getLast?_eq_getElem?, last, place_eq]
    rfl
  · rw [if_neg numbered, numberStrings_of_not_numbered numbered, last]

/-- Removing the prefixes gives the bodies back. -/
theorem map_afterPrefix_numberStrings (numbered : Numbered opts bodies) :
    (numberStrings opts bodies).map afterPrefix = bodies := by
  apply List.ext_getElem?
  intro index
  rw [List.getElem?_map, getElem?_numberStrings numbered, Option.map_map]
  cases bodies[index]? with
  | none => rfl
  | some body => exact congrArg some (afterPrefix_chunkPrefix _ _ _)

/-- Strings at the places of a flush are told apart by their prefixes, so that the places a
receiver has not seen are those of the strings it misses. -/
theorem received_all_iff (numbered : Numbered opts bodies) {received : List Text}
    (sent : received ⊆ numberStrings opts bodies) :
    numberStrings opts bodies ⊆ received ↔
      ∀ place, 1 ≤ place → place ≤ bodies.length →
        ∃ string ∈ received, Announces string place bodies.length := by
  constructor
  · intro all place low high
    obtain ⟨index, rfl⟩ : ∃ index, place = index + 1 := ⟨place - 1, by omega⟩
    have inside : index < bodies.length := high
    have at_index := getElem?_numberStrings numbered index
    rw [List.getElem?_eq_getElem inside, Option.map_some] at at_index
    exact ⟨_, all (List.mem_of_getElem? at_index), bodies[index], rfl⟩
  · intro seen string member
    obtain ⟨index, at_index⟩ := List.getElem?_of_mem member
    have string_eq := at_index
    rw [getElem?_numberStrings numbered] at string_eq
    obtain ⟨body, body_at, rfl⟩ := Option.map_eq_some_iff.mp string_eq
    have inside := (List.getElem?_eq_some_iff.mp body_at).1
    obtain ⟨other, other_mem, announced⟩ := seen (index + 1) (by omega) inside
    obtain ⟨index', other_at⟩ := List.getElem?_of_mem (sent other_mem)
    have other_eq := other_at
    rw [getElem?_numberStrings numbered] at other_eq
    obtain ⟨body', -, rfl⟩ := Option.map_eq_some_iff.mp other_eq
    obtain ⟨place_eq, -⟩ := announced.unique ⟨body', rfl⟩
    obtain rfl : index = index' := by omega
    rw [at_index] at other_at
    rw [Option.some.inj other_at]
    exact other_mem

end

/-- The capped text of a text with ASCII white space is split. -/
theorem splitIntoCharChunks_of_ascii {text : Text} (ascii : AsciiWhitespace text)
    (opts : ChunkerOpts) :
    splitIntoCharChunks (cappedText text) (innerMax opts) =
      some (((bodyCutter opts).pieces (cappedText text)).map (trimEndMatches isNewline)) :=
  splitIntoCharChunks_of_asciiWhitespace (innerMax_pos opts) (asciiWhitespace_cappedText ascii)

theorem length_cappedStrings_eq (opts : ChunkerOpts) (pieces : List Text) :
    (cappedStrings opts pieces).length =
      min pieces.length opts.burstChunkCap + if opts.burstChunkCap < pieces.length then 1 else 0 := by
  rw [length_cappedStrings]
  split <;> omega

theorem take_cappedStrings (opts : ChunkerOpts) (pieces : List Text) :
    (cappedStrings opts pieces).take (min pieces.length opts.burstChunkCap) =
      pieces.take (min pieces.length opts.burstChunkCap) := by
  have taken : (pieces.take opts.burstChunkCap).length = min pieces.length opts.burstChunkCap := by
    rw [List.length_take, Nat.min_comm]
  rw [cappedStrings, List.take_append_of_le_length (Nat.le_of_eq taken.symm), List.take_take]
  congr 1
  omega

theorem getLast?_cappedStrings {opts : ChunkerOpts} {pieces : List Text}
    (capped : opts.burstChunkCap < pieces.length) :
    (cappedStrings opts pieces).getLast? =
      some (burstMarker (pieces.length - opts.burstChunkCap)) := by
  rw [cappedStrings, if_pos capped, List.getLast?_concat]

/-- What the strings of a flush are, given the pieces that are not blank. -/
structure NumbersPieces (opts : ChunkerOpts) (pieces strings : List Text) : Prop where
  /-- The pieces up to the cap, and one more string exactly when there are more pieces. -/
  total : strings.length = min pieces.length opts.burstChunkCap +
    if opts.burstChunkCap < pieces.length then 1 else 0
  /-- The last string is then the marker with the number of the others. -/
  marker : opts.burstChunkCap < pieces.length → strings.getLast? = some
    (if Numbered opts strings
      then chunkPrefix strings.length strings.length ++
        burstMarker (pieces.length - opts.burstChunkCap)
      else burstMarker (pieces.length - opts.burstChunkCap))
  /-- Every numbered string is its place and the total, followed by its body. -/
  numbered : Numbered opts strings → strings = (cappedStrings opts pieces).mapIdx
    fun index body => chunkPrefix (index + 1) strings.length ++ body
  plain : ¬ Numbered opts strings → strings = cappedStrings opts pieces
  /-- Removing the prefixes gives the first pieces back. -/
  bodies : (if Numbered opts strings then strings.map afterPrefix else strings).take
    (min pieces.length opts.burstChunkCap) = pieces.take (min pieces.length opts.burstChunkCap)
  /-- Every numbered string tells the total, and no other. -/
  announces : Numbered opts strings → ∀ string ∈ strings, ∀ place total,
    Announces string place total → total = strings.length
  /-- The places that no received string announces are those of the missing ones. -/
  missing : Numbered opts strings → ∀ received ⊆ strings, (strings ⊆ received ↔
    ∀ place, 1 ≤ place → place ≤ strings.length →
      ∃ string ∈ received, Announces string place strings.length)

theorem numbersPieces (opts : ChunkerOpts) (pieces : List Text) :
    NumbersPieces opts pieces (numberStrings opts (cappedStrings opts pieces)) := by
  have total_eq := length_numberStrings opts (cappedStrings opts pieces)
  have numbered_iff : Numbered opts (numberStrings opts (cappedStrings opts pieces)) ↔
      Numbered opts (cappedStrings opts pieces) := by rw [Numbered, Numbered, total_eq]
  constructor
  case total => rw [total_eq, length_cappedStrings_eq]
  case marker =>
    intro capped
    rw [getLast?_numberStrings (getLast?_cappedStrings capped), total_eq]
    simp only [numbered_iff]
  case numbered =>
    intro numbered
    rw [total_eq]
    exact numberStrings_of_numbered (numbered_iff.mp numbered)
  case plain =>
    intro plain
    exact numberStrings_of_not_numbered fun numbered => plain (numbered_iff.mpr numbered)
  case bodies =>
    rw [← take_cappedStrings]
    congr 1
    split
    · rename_i numbered
      exact map_afterPrefix_numberStrings (numbered_iff.mp numbered)
    · rename_i plain
      exact numberStrings_of_not_numbered fun numbered => plain (numbered_iff.mpr numbered)
  case announces =>
    intro numbered string member place total announced
    rw [numberStrings_of_numbered (numbered_iff.mp numbered)] at member
    obtain ⟨index, inside, rfl⟩ := List.mem_mapIdx.mp member
    rw [total_eq]
    exact (announced.unique ⟨_, rfl⟩).2
  case missing =>
    intro numbered received sent
    rw [total_eq]
    exact received_all_iff (numbered_iff.mp numbered) sent

/-- A flush of a text with ASCII white space returns the first pieces of its capped text that are
not blank, up to the burst cap, and a marker with the number of those beyond it; numbered strings
carry their place and number, which can be removed and tell a receiver what is missing. -/
theorem numbering_and_cap {text : Text} (ascii : AsciiWhitespace text) (opts : ChunkerOpts) :
    ∃ capped split strings,
      capLines (collapseBlankLines text) maxLinesPerFlush = some capped ∧
      splitIntoCharChunks capped (innerMax opts) = some split ∧
      chunksFromText text opts = some strings ∧
      NumbersPieces opts (split.filter fun piece => !(trim piece).isEmpty) strings := by
  have returned : chunksFromText text opts =
      some (numberStrings opts (cappedStrings opts (visiblePieces text opts))) := by
    rw [chunksFromText_eq, if_pos (narrowBreaks_of_ascii ascii opts)]
  exact ⟨_, _, _, capLines_eq (by decide) _, splitIntoCharChunks_of_ascii ascii opts, returned,
    numbersPieces opts (visiblePieces text opts)⟩

theorem numbering_and_cap_two_lines :
    ∃ capped split strings,
      capLines (collapseBlankLines "a\nb\n".toList) maxLinesPerFlush = some capped ∧
      splitIntoCharChunks capped (innerMax .default) = some split ∧
      chunksFromText "a\nb\n".toList .default = some strings ∧
      NumbersPieces .default (split.filter fun piece => !(trim piece).isEmpty) strings :=
  numbering_and_cap (by simp [AsciiWhitespace]) .default

end Loraterm
