import Mathlib

/-!
# UTF-8 text addressed by byte offsets

A valid UTF-8 string is a list of Unicode scalar values.  Its operations take and return byte
offsets; an offset that is not a character boundary is refused, never rounded.
-/

namespace Utf8Text

/-- A valid UTF-8 string, character by character. -/
abbrev Text := List Char

/-! ## Byte offsets -/

/-- Number of bytes of a text. -/
def byteLen (text : Text) : Nat := (text.map Char.utf8Size).sum

/-- The encoded bytes of a text. -/
def bytes (text : Text) : List UInt8 := text.flatMap String.utf8EncodeChar

@[simp] theorem byteLen_nil : byteLen [] = 0 := rfl

@[simp] theorem byteLen_cons (char : Char) (text : Text) :
    byteLen (char :: text) = char.utf8Size + byteLen text := by
  simp [byteLen]

@[simp] theorem byteLen_append (left right : Text) :
    byteLen (left ++ right) = byteLen left + byteLen right := by
  simp [byteLen]

@[simp] theorem bytes_nil : bytes [] = [] := rfl

@[simp] theorem bytes_cons (char : Char) (text : Text) :
    bytes (char :: text) = String.utf8EncodeChar char ++ bytes text := rfl

@[simp] theorem bytes_append (left right : Text) :
    bytes (left ++ right) = bytes left ++ bytes right := by
  simp [bytes]

theorem byteLen_pos {text : Text} (nonempty : text ≠ []) : 0 < byteLen text := by
  cases text with
  | nil => exact (nonempty rfl).elim
  | cons char text =>
      have size_pos := char.utf8Size_pos
      simp only [byteLen_cons]
      omega

/-- Cut a text at a byte offset, or refuse an offset that is not a character boundary. -/
def splitAt? : Text → Nat → Option (Text × Text)
  | text, 0 => some ([], text)
  | [], _ + 1 => none
  | char :: rest, offset + 1 =>
      if char.utf8Size ≤ offset + 1 then
        (splitAt? rest (offset + 1 - char.utf8Size)).map fun cut => (char :: cut.1, cut.2)
      else
        none

@[simp] theorem splitAt?_zero (text : Text) : splitAt? text 0 = some ([], text) := by
  cases text <;> rfl

theorem splitAt?_cons_of_le (char : Char) (rest : Text) {offset : Nat}
    (fits : char.utf8Size ≤ offset) :
    splitAt? (char :: rest) offset =
      (splitAt? rest (offset - char.utf8Size)).map fun cut => (char :: cut.1, cut.2) := by
  cases offset with
  | zero => exact absurd char.utf8Size_pos (by omega)
  | succ offset => simp [splitAt?, fits]

/-- Every boundary of a text can be cut at. -/
theorem splitAt?_append (left right : Text) :
    splitAt? (left ++ right) (byteLen left) = some (left, right) := by
  induction left with
  | nil => simp
  | cons char left ih =>
      rw [List.cons_append, splitAt?_cons_of_le _ _ (by simp)]
      simp [ih]

theorem splitAt?_eq_some {text head tail : Text} {offset : Nat}
    (cut : splitAt? text offset = some (head, tail)) :
    text = head ++ tail ∧ byteLen head = offset := by
  induction text generalizing offset head with
  | nil =>
      cases offset with
      | zero =>
          obtain ⟨rfl, rfl⟩ : [] = head ∧ [] = tail := by simpa using cut
          simp
      | succ offset => simp [splitAt?] at cut
  | cons char rest ih =>
      cases offset with
      | zero =>
          obtain ⟨rfl, rfl⟩ : [] = head ∧ char :: rest = tail := by simpa using cut
          simp
      | succ offset =>
          simp only [splitAt?] at cut
          split at cut
          · rename_i fits
            obtain ⟨⟨innerHead, innerTail⟩, innerCut, joined⟩ := Option.map_eq_some_iff.mp cut
            obtain ⟨rfl, rfl⟩ : char :: innerHead = head ∧ innerTail = tail := by
              simpa using joined
            obtain ⟨rest_eq, head_len⟩ := ih innerCut
            refine ⟨by simp [rest_eq], ?_⟩
            simp only [byteLen_cons, head_len]
            omega
          · simp at cut

/-- The offsets that can be cut at are the character boundaries. -/
theorem isSome_splitAt?_iff (text : Text) (offset : Nat) :
    (splitAt? text offset).isSome = true ↔
      ∃ head tail, text = head ++ tail ∧ byteLen head = offset := by
  constructor
  · intro possible
    obtain ⟨⟨head, tail⟩, cut⟩ := Option.isSome_iff_exists.mp possible
    exact ⟨head, tail, splitAt?_eq_some cut⟩
  · rintro ⟨head, tail, rfl, rfl⟩
    rw [splitAt?_append]
    rfl

/-- No offset strictly inside a character can be cut at. -/
theorem splitAt?_inside (before : Text) (char : Char) (after : Text) {inner : Nat}
    (inner_pos : 0 < inner) (inner_lt : inner < char.utf8Size) :
    splitAt? (before ++ char :: after) (byteLen before + inner) = none := by
  induction before with
  | nil =>
      obtain ⟨offset, rfl⟩ := Nat.exists_eq_succ_of_ne_zero (Nat.ne_of_gt inner_pos)
      simp only [List.nil_append, byteLen_nil, Nat.zero_add, Nat.succ_eq_add_one, splitAt?]
      rw [if_neg (by omega)]
  | cons head before ih =>
      have offset_eq : byteLen (head :: before) + inner - head.utf8Size =
          byteLen before + inner := by
        simp only [byteLen_cons]
        omega
      rw [List.cons_append, splitAt?_cons_of_le _ _ (by simp only [byteLen_cons]; omega),
        offset_eq, ih, Option.map_none]

/-! ## Character positions -/

/-- The characters of a text with their byte offsets, counted from `offset`. -/
def charIndicesFrom : Nat → Text → List (Nat × Char)
  | _, [] => []
  | offset, char :: rest => (offset, char) :: charIndicesFrom (offset + char.utf8Size) rest

/-- The characters of a text with their byte offsets. -/
def charIndices (text : Text) : List (Nat × Char) := charIndicesFrom 0 text

theorem charIndicesFrom_append (offset : Nat) (left right : Text) :
    charIndicesFrom offset (left ++ right) =
      charIndicesFrom offset left ++ charIndicesFrom (offset + byteLen left) right := by
  induction left generalizing offset with
  | nil => simp [charIndicesFrom]
  | cons char left ih => simp [charIndicesFrom, ih, Nat.add_assoc]

theorem getElem?_charIndicesFrom (offset index : Nat) (text : Text) :
    (charIndicesFrom offset text)[index]? =
      text[index]?.map fun char => (offset + byteLen (text.take index), char) := by
  induction text generalizing offset index with
  | nil => simp [charIndicesFrom]
  | cons char text ih =>
      cases index with
      | zero => simp [charIndicesFrom]
      | succ index => simp [charIndicesFrom, ih, Nat.add_assoc]

theorem getElem?_charIndices (index : Nat) (text : Text) :
    (charIndices text)[index]? =
      text[index]?.map fun char => (byteLen (text.take index), char) := by
  simpa [charIndices] using getElem?_charIndicesFrom 0 index text

theorem map_snd_charIndicesFrom (offset : Nat) (text : Text) :
    (charIndicesFrom offset text).map Prod.snd = text := by
  induction text generalizing offset with
  | nil => rfl
  | cons char text ih => simp [charIndicesFrom, ih]

/-- Byte offset of the last character that satisfies a predicate. -/
def rfind (matching : Char → Bool) (text : Text) : Option Nat :=
  ((charIndices text).reverse.find? fun entry => matching entry.2).map Prod.fst

theorem rfind_eq_none {matching : Char → Bool} {text : Text}
    (unmatched : ∀ char ∈ text, matching char = false) : rfind matching text = none := by
  have entries_unmatched :
      ∀ entry ∈ (charIndices text).reverse, ¬ (matching entry.2 = true) := by
    intro entry member
    have char_mem : entry.2 ∈ text := by
      rw [← map_snd_charIndicesFrom 0 text]
      exact List.mem_map_of_mem (List.mem_reverse.mp member)
    simp [unmatched _ char_mem]
  simp only [rfind, Option.map_eq_none_iff, List.find?_eq_none]
  exact entries_unmatched

theorem rfind_append_cons {matching : Char → Bool} (before : Text) {char : Char} {after : Text}
    (matched : matching char = true) (unmatched : ∀ other ∈ after, matching other = false) :
    rfind matching (before ++ char :: after) = some (byteLen before) := by
  have later_unmatched :
      (charIndicesFrom (byteLen before + char.utf8Size) after).reverse.find?
        (fun entry => matching entry.2) = none := by
    simp only [List.find?_eq_none, List.mem_reverse]
    intro entry member
    have char_mem : entry.2 ∈ after := by
      rw [← map_snd_charIndicesFrom (byteLen before + char.utf8Size) after]
      exact List.mem_map_of_mem member
    simp [unmatched _ char_mem]
  simp [rfind, charIndices, charIndicesFrom_append, charIndicesFrom, List.find?_append,
    later_unmatched, matched]

/-! ## White space -/

/-- The Unicode `White_Space` property. -/
def isWhitespace (char : Char) : Bool :=
  let code := char.toNat
  (0x09 ≤ code && code ≤ 0x0D) || code == 0x20 || code == 0x85 || code == 0xA0 ||
    code == 0x1680 || (0x2000 ≤ code && code ≤ 0x200A) || code == 0x2028 || code == 0x2029 ||
    code == 0x202F || code == 0x205F || code == 0x3000

/-- Drop matching characters at the start. -/
def trimStartMatches (matching : Char → Bool) (text : Text) : Text := text.dropWhile matching

/-- Drop matching characters at the end. -/
def trimEndMatches (matching : Char → Bool) (text : Text) : Text := text.rdropWhile matching

/-- Drop white space at both ends. -/
def trim (text : Text) : Text := trimEndMatches isWhitespace (trimStartMatches isWhitespace text)

/-- A text is blank when it has only white space. -/
def Blank (text : Text) : Prop := ∀ char ∈ text, isWhitespace char = true

instance (text : Text) : Decidable (Blank text) :=
  inferInstanceAs (Decidable (∀ char ∈ text, isWhitespace char = true))

theorem isEmpty_trim_iff (text : Text) : (trim text).isEmpty = true ↔ Blank text := by
  rw [List.isEmpty_iff, trim, trimEndMatches, trimStartMatches, List.rdropWhile_eq_nil_iff]
  constructor
  · intro remaining char member
    rw [← List.takeWhile_append_dropWhile (p := isWhitespace) (l := text)] at member
    rcases List.mem_append.mp member with taken | dropped
    · exact List.mem_takeWhile_imp taken
    · exact remaining char dropped
  · intro blank char member
    exact blank char ((List.dropWhile_suffix _).subset member)

/-- The characters that are not white space, in order. -/
def visible (text : Text) : Text := text.filter fun char => !isWhitespace char

@[simp] theorem visible_nil : visible [] = [] := rfl

@[simp] theorem visible_append (left right : Text) :
    visible (left ++ right) = visible left ++ visible right := by
  simp [visible]

theorem visible_eq_nil_iff (text : Text) : visible text = [] ↔ Blank text := by
  simp [visible, Blank]

/-- Every white-space character of the text is ASCII. -/
def AsciiWhitespace (text : Text) : Prop :=
  ∀ char ∈ text, isWhitespace char = true → char.toNat < 0x80

theorem utf8Size_of_ascii {char : Char} (ascii : char.toNat < 0x80) : char.utf8Size = 1 := by
  have bound : char.val ≤ 127 := by
    rw [UInt32.le_iff_toNat_le]
    have : char.val.toNat < 128 := ascii
    show char.val.toNat ≤ 127
    omega
  simp [Char.utf8Size, bound]

/-! ## ASCII letters and digits -/

/-- Lower-case the ASCII letters of a text. -/
def asciiLower (text : Text) : Text := text.map Char.toLower

/-- Equality up to the case of ASCII letters. -/
def eqIgnoreAsciiCase (left right : Text) : Bool := asciiLower left == asciiLower right

/-- ASCII hexadecimal digits. -/
def isHexDigit (char : Char) : Bool :=
  ('0' ≤ char && char ≤ '9') || ('a' ≤ char && char ≤ 'f') || ('A' ≤ char && char ≤ 'F')

/-- Lower-case ASCII hexadecimal digits. -/
def isLowerHexDigit (char : Char) : Bool :=
  ('0' ≤ char && char ≤ '9') || ('a' ≤ char && char ≤ 'f')

theorem toLower_not_upper_hex (char : Char) : ¬ ('A' ≤ char.toLower ∧ char.toLower ≤ 'F') := by
  rintro ⟨above, below⟩
  simp only [Char.toLower] at above below
  split at above
  · rename_i upper
    rw [dif_pos upper] at below
    simp only [Char.le_def, UInt32.le_iff_toNat_le, UInt32.toNat_add, ge_iff_le] at above below upper
    simp at above below upper
    omega
  · rename_i other
    rw [dif_neg other] at below
    simp only [Char.le_def, UInt32.le_iff_toNat_le, ge_iff_le] at above below other
    simp at above below other
    omega

theorem isLowerHexDigit_toLower {char : Char} (digit : isHexDigit char.toLower = true) :
    isLowerHexDigit char.toLower = true := by
  have not_upper := toLower_not_upper_hex char
  simp only [isHexDigit, isLowerHexDigit, Bool.or_eq_true, Bool.and_eq_true,
    decide_eq_true_eq] at digit ⊢
  tauto

/-- Lower-casing neither makes nor destroys a hexadecimal digit. -/
theorem isHexDigit_toLower (char : Char) : isHexDigit char.toLower = isHexDigit char := by
  rw [Bool.eq_iff_iff]
  simp only [isHexDigit, Char.toLower, Bool.or_eq_true, Bool.and_eq_true, decide_eq_true_eq]
  split
  · rename_i upper
    simp only [Char.le_def, UInt32.le_iff_toNat_le, UInt32.toNat_add, ge_iff_le] at upper ⊢
    simp at upper ⊢
    omega
  · rfl

theorem utf8Size_of_isHexDigit {char : Char} (digit : isHexDigit char = true) :
    char.utf8Size = 1 := by
  apply utf8Size_of_ascii
  simp only [isHexDigit, Bool.or_eq_true, Bool.and_eq_true, decide_eq_true_eq, Char.le_def,
    UInt32.le_iff_toNat_le] at digit
  have toNat_eq : char.toNat = char.val.toNat := rfl
  simp at digit
  omega

theorem byteLen_of_isHexDigit {text : Text} (digits : text.all isHexDigit = true) :
    byteLen text = text.length := by
  induction text with
  | nil => rfl
  | cons char text ih =>
      rw [List.all_cons, Bool.and_eq_true] at digits
      rw [byteLen_cons, ih digits.2, utf8Size_of_isHexDigit digits.1, List.length_cons, Nat.add_comm]

/-! ## Lossy decoding -/

/-- The character that stands for an undecodable byte sequence. -/
def replacement : Char := Char.ofNat 0xFFFD

/-- Bytes announced by a leading byte; zero for a byte that cannot lead. -/
def charWidth (lead : UInt8) : Nat :=
  if lead < 0x80 then 1
  else if 0xC2 ≤ lead && lead ≤ 0xDF then 2
  else if 0xE0 ≤ lead && lead ≤ 0xEF then 3
  else if 0xF0 ≤ lead && lead ≤ 0xF4 then 4
  else 0

/-- A continuation byte. -/
def isContinuation (byte : UInt8) : Bool := 0x80 ≤ byte && byte ≤ 0xBF

/-- The second bytes allowed after a leading byte of three or four. -/
def secondFits (lead second : UInt8) : Bool :=
  if lead = 0xE0 then 0xA0 ≤ second && second ≤ 0xBF
  else if lead = 0xED then 0x80 ≤ second && second ≤ 0x9F
  else if lead = 0xF0 then 0x90 ≤ second && second ≤ 0xBF
  else if lead = 0xF4 then 0x80 ≤ second && second ≤ 0x8F
  else isContinuation second

/-- Payload of a continuation byte. -/
def payload (byte : UInt8) : Nat := byte.toNat % 64

/-- Decode bytes, replacing each maximal undecodable sequence by one replacement character. -/
def fromUtf8Lossy : List UInt8 → Text
  | [] => []
  | lead :: rest =>
      match charWidth lead, rest with
      | 1, rest => Char.ofNat lead.toNat :: fromUtf8Lossy rest
      | 2, second :: rest₂ =>
          if isContinuation second then
            Char.ofNat (lead.toNat % 32 * 64 + payload second) :: fromUtf8Lossy rest₂
          else
            replacement :: fromUtf8Lossy (second :: rest₂)
      | 3, second :: rest₂ =>
          if secondFits lead second then
            match rest₂ with
            | third :: rest₃ =>
                if isContinuation third then
                  Char.ofNat (lead.toNat % 16 * 4096 + payload second * 64 + payload third) ::
                    fromUtf8Lossy rest₃
                else
                  replacement :: fromUtf8Lossy (third :: rest₃)
            | [] => [replacement]
          else
            replacement :: fromUtf8Lossy (second :: rest₂)
      | 4, second :: rest₂ =>
          if secondFits lead second then
            match rest₂ with
            | third :: rest₃ =>
                if isContinuation third then
                  match rest₃ with
                  | fourth :: rest₄ =>
                      if isContinuation fourth then
                        Char.ofNat (lead.toNat % 8 * 262144 + payload second * 4096 +
                          payload third * 64 + payload fourth) :: fromUtf8Lossy rest₄
                      else
                        replacement :: fromUtf8Lossy (fourth :: rest₄)
                  | [] => [replacement]
                else
                  replacement :: fromUtf8Lossy (third :: rest₃)
            | [] => [replacement]
          else
            replacement :: fromUtf8Lossy (second :: rest₂)
      | _, rest => replacement :: fromUtf8Lossy rest

example : fromUtf8Lossy (bytes "a😀é€".toList) = "a😀é€".toList := by decide +kernel

example : fromUtf8Lossy [0xF0, 0x9F, 0x98, 0x61, 0xC0, 0xE2, 0x82] =
    [replacement, 'a', replacement, replacement] := by decide +kernel

end Utf8Text
