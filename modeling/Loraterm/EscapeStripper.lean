import Loraterm.ChunkerCuts
import Loraterm.Library.Utf8Codec

/-!
# What is assumed of the escape stripper

`strip_ansi_escapes::strip` runs a terminal parser from its ground state over one block and keeps
what the parser prints, and newlines.  The results about it assume only how it treats complete
characters and complete control sequences, a sequence or character cut off by the end of a block,
and continuation bytes without a leading byte.
-/

namespace Loraterm

open Utf8Text UnitCut

/-- The escape character. -/
def escapeChar : Char := Char.ofNat 0x1B

/-- The C1 control characters. -/
def isC1 (char : Char) : Bool := 0x80 ≤ char.toNat && char.toNat < 0xA0

/-- The control characters: C0, DEL and C1. -/
def isControl (char : Char) : Bool := char.toNat < 0x20 || char.toNat == 0x7F || isC1 char

/-- A complete control sequence: ESC and `[`, parameters, intermediates and a final byte. -/
structure CsiSequence where
  params : List UInt8
  intermediates : List UInt8
  final : UInt8
  params_fit : ∀ byte ∈ params, 0x30 ≤ byte ∧ byte ≤ 0x3F
  intermediates_fit : ∀ byte ∈ intermediates, 0x20 ≤ byte ∧ byte ≤ 0x2F
  final_fits : 0x40 ≤ final ∧ final ≤ 0x7E
  deriving DecidableEq

/-- The bytes of a control sequence after its ESC. -/
def CsiSequence.body (sequence : CsiSequence) : List UInt8 :=
  0x5B :: (sequence.params ++ sequence.intermediates ++ [sequence.final])

/-- What a terminal reads as one: a character other than ESC, or a control sequence. -/
inductive TerminalUnit
  | char (char : Char) (plain : char ≠ escapeChar)
  | csi (sequence : CsiSequence)
  deriving DecidableEq

namespace TerminalUnit

/-- The bytes of a unit. -/
def encode : TerminalUnit → List UInt8
  | .char letter _ => String.utf8EncodeChar letter
  | .csi sequence => 0x1B :: sequence.body

/-- The text of a unit: control sequences have none. -/
def text : TerminalUnit → Text
  | .char letter _ => [letter]
  | .csi _ => []

end TerminalUnit

/-- The text of a list of units. -/
def unitsText (units : List TerminalUnit) : Text := units.flatMap TerminalUnit.text

/-- The stripper starts every call in its ground state and returns to it after each complete unit;
it keeps printable characters, drops C1 characters, and treats every other control character
alike wherever it stands.  A unit cut off at the end prints nothing, and a continuation byte
without a leading byte prints a replacement character or nothing. -/
structure StripsUnits (strip : List UInt8 → List UInt8) (keep : Char → Bool) : Prop where
  printable : ∀ char, isControl char = false → keep char = true
  c1 : ∀ char, isC1 char = true → keep char = false
  unit : ∀ (unit : TerminalUnit) rest,
    strip (unit.encode ++ rest) = bytes (unit.text.filter keep) ++ strip rest
  unfinished : ∀ part, Unfinished TerminalUnit.encode part → strip part = []
  stray : ∀ byte rest, isContinuation byte = true →
    strip (byte :: rest) = strip rest ∨ strip (byte :: rest) = bytes [replacement] ++ strip rest

/-! ## Units -/

theorem CsiSequence.body_visible (sequence : CsiSequence) :
    ∀ byte ∈ sequence.body, 0x20 ≤ byte.toNat ∧ byte.toNat < 0x7F := by
  intro byte member
  simp only [body, List.mem_cons, List.mem_append] at member
  rcases member with rfl | (param | intermediate) | rfl | impossible
  · decide
  · have fits := sequence.params_fit byte param
    simp only [UInt8.le_iff_toNat_le] at fits
    change 48 ≤ byte.toNat ∧ byte.toNat ≤ 63 at fits
    omega
  · have fits := sequence.intermediates_fit byte intermediate
    simp only [UInt8.le_iff_toNat_le] at fits
    change 32 ≤ byte.toNat ∧ byte.toNat ≤ 47 at fits
    omega
  · have fits := sequence.final_fits
    simp only [UInt8.le_iff_toNat_le] at fits
    change 64 ≤ _ ∧ _ ≤ 126 at fits
    omega
  · cases impossible

theorem CsiSequence.inner_small (sequence : CsiSequence) :
    ∀ byte ∈ sequence.params ++ sequence.intermediates, byte < 0x40 := by
  intro byte member
  rw [UInt8.lt_iff_toNat_lt]
  rcases List.mem_append.mp member with param | intermediate
  · have fits := (UInt8.le_iff_toNat_le.mp (sequence.params_fit byte param).2)
    change byte.toNat ≤ 63 at fits
    change byte.toNat < 64
    omega
  · have fits := (UInt8.le_iff_toNat_le.mp (sequence.intermediates_fit byte intermediate).2)
    change byte.toNat ≤ 47 at fits
    change byte.toNat < 64
    omega

theorem lineUnits_chars : LineUnits String.utf8EncodeChar where
  nonempty char := by
    obtain ⟨lead, later, encode_eq⟩ := (encoded_encodeChar char).exists_lead
    simp [encode_eq]
  newline_alone char member :=
    ((encoded_encodeChar char).eq_of_ascii_mem (by decide) member).1

theorem lineUnits_terminal : LineUnits TerminalUnit.encode where
  nonempty unit := by
    cases unit with
    | char char plain => exact lineUnits_chars.nonempty char
    | csi sequence => simp [TerminalUnit.encode]
  newline_alone unit member := by
    cases unit with
    | char char plain => exact lineUnits_chars.newline_alone char member
    | csi sequence =>
        rcases List.mem_cons.mp member with impossible | in_body
        · cases impossible
        · have visible := sequence.body_visible _ in_body
          exact absurd visible.1 (by decide)

theorem bytes_filter_singleton (keep : Char → Bool) (char : Char) :
    bytes ([char].filter keep) = if keep char then String.utf8EncodeChar char else [] := by
  cases kept : keep char <;> simp [kept]

theorem isControl_asciiChar {byte : UInt8} (low : 0x20 ≤ byte.toNat) (high : byte.toNat < 0x7F) :
    isControl (asciiChar byte) = false := by
  simp only [isControl, isC1, toNat_asciiChar, Bool.or_eq_false_iff, Bool.and_eq_false_iff,
    decide_eq_false_iff_not, beq_eq_false_iff_ne]
  omega

/-- The unit of an ASCII character. -/
theorem exists_unit_of_ascii {byte : UInt8} (ascii : byte.toNat < 0x80) (plain : byte ≠ 0x1B) :
    ∃ unit : TerminalUnit, unit.encode = [byte] ∧ unit.text = [asciiChar byte] := by
  have not_escape : asciiChar byte ≠ escapeChar := by
    intro escape
    apply plain
    rw [← UInt8.toNat_inj, ← toNat_asciiChar byte, escape]
    rfl
  exact ⟨.char _ not_escape, encodeChar_asciiChar ascii, rfl⟩

/-- An ASCII character at the start of a block is kept or dropped by itself. -/
theorem StripsUnits.ascii {strip : List UInt8 → List UInt8} {keep : Char → Bool}
    (strips : StripsUnits strip keep) {byte : UInt8} (ascii : byte.toNat < 0x80)
    (plain : byte ≠ 0x1B) (rest : List UInt8) :
    strip (byte :: rest) = (if keep (asciiChar byte) then [byte] else []) ++ strip rest := by
  obtain ⟨unit, encode_eq, text_eq⟩ := exists_unit_of_ascii ascii plain
  have stripped := strips.unit unit rest
  rw [encode_eq, text_eq, bytes_filter_singleton, encodeChar_asciiChar ascii] at stripped
  exact stripped

/-! ## A stripper that does what is assumed -/

/-- The states of a parser of characters and control sequences. -/
inductive StripState
  | ground
  | escape
  | csi
  | character (seen : List UInt8) (missing : Nat)
  deriving DecidableEq, Repr

/-- Whether a decoded character is printed or is a newline. -/
def referenceKeeps (char : Char) : Bool := char == '\n' || (0x20 ≤ char.toNat && !isC1 char)

/-- The bytes of a character of several bytes, unless it is a C1 character. -/
def printWide (encoded : List UInt8) : List UInt8 :=
  if encoded.head? = some 0xC2 && encoded.tail.all (· < 0xA0) then [] else encoded

/-- The output of the parser from a state. -/
def stripFrom : StripState → List UInt8 → List UInt8
  | _, [] => []
  | .ground, byte :: rest =>
      if byte = 0x1B then stripFrom .escape rest
      else if isContinuation byte then
        (if byte < 0xA0 then [] else bytes [replacement]) ++ stripFrom .ground rest
      else match charWidth byte with
        | 0 => bytes [replacement] ++ stripFrom .ground rest
        | 1 => (if byte = 0x0A || 0x20 ≤ byte then [byte] else []) ++ stripFrom .ground rest
        | width + 2 => stripFrom (.character [byte] (width + 1)) rest
  | .escape, byte :: rest => stripFrom (if byte = 0x5B then .csi else .ground) rest
  | .csi, byte :: rest => stripFrom (if 0x40 ≤ byte && byte ≤ 0x7E then .ground else .csi) rest
  | .character seen missing, byte :: rest =>
      if missing ≤ 1 then printWide (seen ++ [byte]) ++ stripFrom .ground rest
      else stripFrom (.character (seen ++ [byte]) (missing - 1)) rest

/-- A stripper of characters and control sequences. -/
def referenceStrip (block : List UInt8) : List UInt8 := stripFrom .ground block

theorem stripFrom_csi (body rest : List UInt8) {final : UInt8}
    (inner : ∀ byte ∈ body, byte < 0x40) (final_fits : 0x40 ≤ final ∧ final ≤ 0x7E) :
    stripFrom .csi (body ++ final :: rest) = stripFrom .ground rest := by
  induction body with
  | nil => simp [stripFrom, final_fits]
  | cons byte body ih =>
      have small := inner byte (by simp)
      have stays : ¬ 0x40 ≤ byte := UInt8.not_le.mpr small
      simp [stripFrom, stays, ih (fun other member => inner other (by simp [member]))]

theorem stripFrom_csi_open {body : List UInt8} (inner : ∀ byte ∈ body, byte < 0x40) :
    stripFrom .csi body = [] := by
  induction body with
  | nil => rfl
  | cons byte body ih =>
      have small := inner byte (by simp)
      have stays : ¬ 0x40 ≤ byte := UInt8.not_le.mpr small
      simp [stripFrom, stays, ih (fun other member => inner other (by simp [member]))]

/-- The bytes of a character of several bytes are collected up to the last. -/
theorem stripFrom_character (seen later rest : List UInt8) (nonempty : later ≠ []) :
    stripFrom (.character seen later.length) (later ++ rest) =
      printWide (seen ++ later) ++ stripFrom .ground rest := by
  induction later generalizing seen with
  | nil => exact (nonempty rfl).elim
  | cons byte later ih =>
      cases later with
      | nil => simp [stripFrom]
      | cons next later =>
          have collected := ih (seen ++ [byte]) (by simp)
          simp only [List.append_assoc, List.singleton_append] at collected
          rw [← collected]
          simp [stripFrom]

theorem stripFrom_character_open (seen part : List UInt8) {missing : Nat}
    (short : part.length < missing) : stripFrom (.character seen missing) part = [] := by
  induction part generalizing seen missing with
  | nil => rfl
  | cons byte part ih =>
      simp only [List.length_cons] at short
      rw [stripFrom, if_neg (by omega)]
      exact ih _ (by omega)

/-- A leading byte of several bytes starts collecting. -/
theorem stripFrom_lead {char : Char} {lead : UInt8} {later : List UInt8}
    (shape : Encoded char (lead :: later)) (wide : 0x80 ≤ char.toNat) (rest : List UInt8) :
    stripFrom .ground (lead :: rest) = stripFrom (.character [lead] later.length) rest := by
  obtain ⟨high, width, later_ne⟩ := shape.lead_of_wide wide
  obtain ⟨next, more, rfl⟩ := List.exists_cons_of_ne_nil later_ne
  have not_escape : lead ≠ 0x1B := by
    rintro rfl
    exact absurd high (by decide)
  have not_continuation : ¬ isContinuation lead = true := by
    rw [isContinuation_iff]
    omega
  rw [stripFrom, if_neg not_escape, if_neg not_continuation, width]
  simp

/-- A character of several bytes is printed unless it is a C1 character. -/
theorem printWide_eq {char : Char} {encoded : List UInt8} (shape : Encoded char encoded)
    (wide : 0x80 ≤ char.toNat) :
    printWide encoded = if referenceKeeps char then encoded else [] := by
  have range := toNat_cases char
  have not_newline : (char == '\n') = false := by
    rw [beq_eq_false_iff_ne]
    rintro rfl
    exact absurd wide (by decide)
  have keeps_iff : referenceKeeps char = true ↔ 0xA0 ≤ char.toNat := by
    simp only [referenceKeeps, not_newline, isC1, Bool.false_or, Bool.and_eq_true,
      decide_eq_true_eq, Bool.not_eq_true', Bool.and_eq_false_iff, decide_eq_false_iff_not]
    omega
  have c1_iff : (encoded.head? = some 0xC2 && encoded.tail.all (· < 0xA0)) = true ↔
      char.toNat < 0xA0 := by
    cases shape with
    | one small => omega
    | two low high lead_eq second_eq =>
        simp only [List.head?_cons, List.tail_cons, List.all_cons, List.all_nil, Bool.and_true,
          Bool.and_eq_true, decide_eq_true_eq, Option.some.injEq, ← UInt8.toNat_inj,
          UInt8.lt_iff_toNat_lt, UInt8.toNat_ofNat]
        omega
    | three low high lead_eq =>
        simp only [List.head?_cons, Bool.and_eq_true, decide_eq_true_eq, Option.some.injEq,
          ← UInt8.toNat_inj, UInt8.toNat_ofNat]
        omega
    | four low lead_eq =>
        simp only [List.head?_cons, Bool.and_eq_true, decide_eq_true_eq, Option.some.injEq,
          ← UInt8.toNat_inj, UInt8.toNat_ofNat]
        omega
  by_cases c1 : char.toNat < 0xA0
  · rw [printWide, if_pos (c1_iff.mpr c1), if_neg (by rw [keeps_iff]; omega)]
  · rw [printWide, if_neg (by rw [c1_iff]; exact c1), if_pos (keeps_iff.mpr (by omega))]

theorem keepsByte_eq {char : Char} {lead : UInt8} (lead_eq : lead.toNat = char.toNat)
    (ascii : char.toNat < 0x80) : (lead = 0x0A || 0x20 ≤ lead) = referenceKeeps char := by
  have newline_iff : char = '\n' ↔ lead = 0x0A := by
    rw [← UInt8.toNat_inj, lead_eq, ← Char.toNat_inj]
    rfl
  have not_c1 : isC1 char = false := by
    simp only [isC1, Bool.and_eq_false_iff, decide_eq_false_iff_not]
    omega
  rw [Bool.eq_iff_iff]
  simp [referenceKeeps, newline_iff, not_c1, UInt8.le_iff_toNat_le, lead_eq]

theorem referenceStrip_char (char : Char) (plain : char ≠ escapeChar) (rest : List UInt8) :
    referenceStrip (String.utf8EncodeChar char ++ rest) =
      bytes ([char].filter referenceKeeps) ++ referenceStrip rest := by
  have shape := encoded_encodeChar char
  rw [bytes_filter_singleton]
  by_cases wide : 0x80 ≤ char.toNat
  · rw [← printWide_eq shape wide]
    obtain ⟨lead, later, encode_eq⟩ := shape.exists_lead
    rw [encode_eq] at shape ⊢
    rw [referenceStrip, List.cons_append, stripFrom_lead shape wide,
      stripFrom_character _ _ _ (shape.lead_of_wide wide).2.2]
    rfl
  · obtain ⟨lead, lead_eq, encode_eq⟩ := shape.of_ascii (by omega)
    have not_escape : lead ≠ 0x1B := by
      rintro rfl
      exact plain (ofNat_of_toNat lead_eq).symm
    have not_continuation : ¬ isContinuation lead = true := by
      rw [isContinuation_iff]
      omega
    have keeps_eq := keepsByte_eq lead_eq (by omega)
    rw [encode_eq, referenceStrip, List.singleton_append, stripFrom, if_neg not_escape,
      if_neg not_continuation, charWidth_one (by omega)]
    simp only [keeps_eq]
    rfl

theorem referenceStrip_csi (sequence : CsiSequence) (rest : List UInt8) :
    referenceStrip (0x1B :: sequence.body ++ rest) = referenceStrip rest := by
  have skipped := stripFrom_csi _ rest sequence.inner_small sequence.final_fits
  simpa [referenceStrip, CsiSequence.body, stripFrom] using skipped

/-- What is cut off before its last byte prints nothing. -/
theorem referenceStrip_unfinished {part late : List UInt8} {unit : TerminalUnit}
    (late_ne : late ≠ []) (split : unit.encode = part ++ late) : referenceStrip part = [] := by
  cases unit with
  | char char plain =>
      have shape := encoded_encodeChar char
      rw [show String.utf8EncodeChar char = part ++ late from split] at shape
      cases part with
      | nil => rfl
      | cons lead part =>
          have wide : 0x80 ≤ char.toNat := by
            by_contra narrow
            obtain ⟨_, -, single⟩ := shape.of_ascii (by omega)
            have lengths := congrArg List.length single
            have late_pos := List.length_pos_iff.mpr late_ne
            simp only [List.length_append, List.length_cons, List.length_nil] at lengths
            omega
          have late_pos := List.length_pos_iff.mpr late_ne
          have short : part.length < (part ++ late).length := by
            rw [List.length_append]
            omega
          rw [referenceStrip, stripFrom_lead shape wide]
          exact stripFrom_character_open _ _ short
  | csi sequence =>
      rcases part with _ | ⟨first, _ | ⟨second, part⟩⟩
      · rfl
      · obtain ⟨rfl, -⟩ := List.cons_eq_cons.mp split
        rfl
      · obtain ⟨rfl, body_split⟩ := List.cons_eq_cons.mp split
        obtain ⟨rfl, inner_split⟩ := List.cons_eq_cons.mp body_split
        have inner : ∀ byte ∈ part, byte < 0x40 := by
          intro byte member
          have inner_eq : (sequence.params ++ sequence.intermediates ++ [sequence.final]).dropLast =
              (part ++ late).dropLast := congrArg List.dropLast inner_split
          rw [List.dropLast_concat, List.dropLast_append_of_ne_nil late_ne] at inner_eq
          exact sequence.inner_small byte (by rw [inner_eq]; exact List.mem_append_left _ member)
        have skipped := stripFrom_csi_open inner
        simpa [referenceStrip, stripFrom] using skipped

theorem stripsUnits_reference : StripsUnits referenceStrip referenceKeeps where
  printable char text := by
    simp only [isControl, Bool.or_eq_false_iff, decide_eq_false_iff_not] at text
    simp [referenceKeeps, text.2]
    omega
  c1 char c1 := by
    have not_newline : char ≠ '\n' := by
      rintro rfl
      cases c1
    simp [referenceKeeps, c1, not_newline]
  unit unit rest := by
    cases unit with
    | char char plain => exact referenceStrip_char char plain rest
    | csi sequence => exact referenceStrip_csi sequence rest
  unfinished part open_part := by
    rcases open_part with rfl | ⟨unit, late, late_ne, split⟩
    · rfl
    · exact referenceStrip_unfinished late_ne split
  stray byte rest continuation := by
    have not_escape : byte ≠ 0x1B := by
      rintro rfl
      cases continuation
    rw [referenceStrip, stripFrom, if_neg not_escape, if_pos continuation]
    split
    · exact .inl rfl
    · exact .inr rfl

end Loraterm
