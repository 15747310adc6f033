import Loraterm.Library.Utf8Text

/-!
# Decoding what was encoded

The encoding of a character is one ASCII byte, or a leading byte and one to three continuation
bytes.  Lossy decoding gives every encoded character back, whatever follows it.
-/

namespace Utf8Text

/-! ## The shape of an encoded character -/

theorem charWidth_one {lead : UInt8} (high : lead.toNat < 0x80) : charWidth lead = 1 := by
  have small : lead < 0x80 := UInt8.lt_iff_toNat_lt.mpr high
  rw [charWidth, if_pos small]

theorem charWidth_two {lead : UInt8} (low : 0xC2 ≤ lead.toNat) (high : lead.toNat ≤ 0xDF) :
    charWidth lead = 2 := by
  simp only [charWidth, UInt8.lt_iff_toNat_lt, UInt8.le_iff_toNat_le, Bool.and_eq_true,
    decide_eq_true_eq, UInt8.toNat_ofNat]
  rw [if_neg (by omega), if_pos (by omega)]

theorem charWidth_three {lead : UInt8} (low : 0xE0 ≤ lead.toNat) (high : lead.toNat ≤ 0xEF) :
    charWidth lead = 3 := by
  simp only [charWidth, UInt8.lt_iff_toNat_lt, UInt8.le_iff_toNat_le, Bool.and_eq_true,
    decide_eq_true_eq, UInt8.toNat_ofNat]
  rw [if_neg (by omega), if_neg (by omega), if_pos (by omega)]

theorem charWidth_four {lead : UInt8} (low : 0xF0 ≤ lead.toNat) (high : lead.toNat ≤ 0xF4) :
    charWidth lead = 4 := by
  simp only [charWidth, UInt8.lt_iff_toNat_lt, UInt8.le_iff_toNat_le, Bool.and_eq_true,
    decide_eq_true_eq, UInt8.toNat_ofNat]
  rw [if_neg (by omega), if_neg (by omega), if_neg (by omega), if_pos (by omega)]

theorem isContinuation_iff {byte : UInt8} :
    isContinuation byte = true ↔ 0x80 ≤ byte.toNat ∧ byte.toNat ≤ 0xBF := by
  simp [isContinuation, UInt8.le_iff_toNat_le]

/-- The bytes of a character: its code point in groups of six bits. -/
inductive Encoded (char : Char) : List UInt8 → Prop
  | one {lead : UInt8} (small : char.toNat < 0x80) (lead_eq : lead.toNat = char.toNat) :
      Encoded char [lead]
  | two {lead second : UInt8} (low : 0x80 ≤ char.toNat) (high : char.toNat < 0x800)
      (lead_eq : lead.toNat = char.toNat / 64 + 0xC0)
      (second_eq : second.toNat = char.toNat % 64 + 0x80) : Encoded char [lead, second]
  | three {lead second third : UInt8} (low : 0x800 ≤ char.toNat) (high : char.toNat < 0x10000)
      (lead_eq : lead.toNat = char.toNat / 4096 + 0xE0)
      (second_eq : second.toNat = char.toNat / 64 % 64 + 0x80)
      (third_eq : third.toNat = char.toNat % 64 + 0x80) : Encoded char [lead, second, third]
  | four {lead second third fourth : UInt8} (low : 0x10000 ≤ char.toNat)
      (lead_eq : lead.toNat = char.toNat / 262144 + 0xF0)
      (second_eq : second.toNat = char.toNat / 4096 % 64 + 0x80)
      (third_eq : third.toNat = char.toNat / 64 % 64 + 0x80)
      (fourth_eq : fourth.toNat = char.toNat % 64 + 0x80) :
      Encoded char [lead, second, third, fourth]

theorem toNat_cases (char : Char) :
    char.toNat < 0xD800 ∨ 0xE000 ≤ char.toNat ∧ char.toNat < 0x110000 := by
  have valid : char.toNat.isValidChar := char.valid
  simp only [Nat.isValidChar] at valid
  omega

theorem encoded_encodeChar (char : Char) : Encoded char (String.utf8EncodeChar char) := by
  have range := toNat_cases char
  have code_eq : char.val.toNat = char.toNat := rfl
  simp only [String.utf8EncodeChar, code_eq]
  split
  · exact .one (by omega) (by rw [UInt8.toNat_ofNat']; omega)
  · split
    · exact .two (by omega) (by omega) (by rw [UInt8.toNat_ofNat']; omega)
        (by rw [UInt8.toNat_ofNat']; omega)
    · split
      · exact .three (by omega) (by omega) (by rw [UInt8.toNat_ofNat']; omega)
          (by rw [UInt8.toNat_ofNat']; omega) (by rw [UInt8.toNat_ofNat']; omega)
      · exact .four (by omega) (by rw [UInt8.toNat_ofNat']; omega)
          (by rw [UInt8.toNat_ofNat']; omega) (by rw [UInt8.toNat_ofNat']; omega)
          (by rw [UInt8.toNat_ofNat']; omega)

/-- All bytes of a character but the first are continuation bytes. -/
theorem Encoded.tail {char : Char} {lead : UInt8} {later : List UInt8}
    (encoded : Encoded char (lead :: later)) : ∀ byte ∈ later, isContinuation byte = true := by
  cases encoded with
  | one => simp
  | two low high lead_eq second_eq =>
      simp only [List.forall_mem_cons, isContinuation_iff]
      refine ⟨⟨by omega, by omega⟩, by simp⟩
  | three low high lead_eq second_eq third_eq =>
      simp only [List.forall_mem_cons, isContinuation_iff]
      refine ⟨⟨by omega, by omega⟩, ⟨by omega, by omega⟩, by simp⟩
  | four low lead_eq second_eq third_eq fourth_eq =>
      simp only [List.forall_mem_cons, isContinuation_iff]
      refine ⟨⟨by omega, by omega⟩, ⟨by omega, by omega⟩, ⟨by omega, by omega⟩, by simp⟩

/-- The leading byte of a character of several bytes. -/
theorem Encoded.lead_of_wide {char : Char} {lead : UInt8} {later : List UInt8}
    (encoded : Encoded char (lead :: later)) (wide : 0x80 ≤ char.toNat) :
    0xC2 ≤ lead.toNat ∧ charWidth lead = later.length + 1 ∧ later ≠ [] := by
  have range := toNat_cases char
  cases encoded with
  | one small => omega
  | two low high lead_eq => exact ⟨by omega, charWidth_two (by omega) (by omega), by simp⟩
  | three low high lead_eq => exact ⟨by omega, charWidth_three (by omega) (by omega), by simp⟩
  | four low lead_eq => exact ⟨by omega, charWidth_four (by omega) (by omega), by simp⟩

theorem Encoded.of_ascii {char : Char} {encoded : List UInt8} (shape : Encoded char encoded)
    (ascii : char.toNat < 0x80) : ∃ lead : UInt8, lead.toNat = char.toNat ∧ encoded = [lead] := by
  cases shape with
  | one small lead_eq => exact ⟨_, lead_eq, rfl⟩
  | two low => omega
  | three low => omega
  | four low => omega

theorem Encoded.exists_lead {char : Char} {encoded : List UInt8} (shape : Encoded char encoded) :
    ∃ lead later, encoded = lead :: later := by
  cases shape <;> exact ⟨_, _, rfl⟩

/-- An ASCII byte in the encoding of a character is the whole encoding. -/
theorem Encoded.eq_of_ascii_mem {char : Char} {encoded : List UInt8} (shape : Encoded char encoded)
    {byte : UInt8} (ascii : byte.toNat < 0x80) (member : byte ∈ encoded) :
    encoded = [byte] ∧ char.toNat = byte.toNat := by
  by_cases small : char.toNat < 0x80
  · obtain ⟨lead, lead_eq, rfl⟩ := shape.of_ascii small
    obtain rfl := List.mem_singleton.mp member
    exact ⟨rfl, lead_eq.symm⟩
  · obtain ⟨lead, later, rfl⟩ := shape.exists_lead
    have high := (shape.lead_of_wide (by omega)).1
    rcases List.mem_cons.mp member with rfl | later_mem
    · omega
    · have continuation := isContinuation_iff.mp (shape.tail byte later_mem)
      omega

/-- The character of an ASCII byte. -/
def asciiChar (byte : UInt8) : Char := Char.ofNat byte.toNat

theorem toNat_asciiChar (byte : UInt8) : (asciiChar byte).toNat = byte.toNat := by
  have small := byte.toNat_lt
  rw [asciiChar, Char.toNat_ofNat, if_pos]
  exact .inl (by omega)

theorem encodeChar_asciiChar {byte : UInt8} (ascii : byte.toNat < 0x80) :
    String.utf8EncodeChar (asciiChar byte) = [byte] := by
  have code_eq := toNat_asciiChar byte
  obtain ⟨lead, lead_eq, encode_eq⟩ :=
    (encoded_encodeChar (asciiChar byte)).of_ascii (by omega)
  have lead_byte : lead = byte := by rw [← UInt8.toNat_inj, lead_eq, code_eq]
  rw [encode_eq, lead_byte]

/-! ## Decoding -/

theorem ofNat_of_toNat {char : Char} {code : Nat} (code_eq : code = char.toNat) :
    Char.ofNat code = char := by
  rw [code_eq, Char.ofNat_toNat]

/-- The second byte of a character of three bytes is in the range of its leading byte. -/
theorem secondFits_three {char : Char} {lead second : UInt8} (low : 0x800 ≤ char.toNat)
    (high : char.toNat < 0x10000) (lead_eq : lead.toNat = char.toNat / 4096 + 0xE0)
    (second_eq : second.toNat = char.toNat / 64 % 64 + 0x80) : secondFits lead second = true := by
  have range := toNat_cases char
  simp only [secondFits, isContinuation, UInt8.le_iff_toNat_le, ← UInt8.toNat_inj,
    UInt8.toNat_ofNat]
  split
  · simp only [Bool.and_eq_true, decide_eq_true_eq]
    omega
  · split
    · simp only [Bool.and_eq_true, decide_eq_true_eq]
      omega
    · rw [if_neg (by omega), if_neg (by omega)]
      simp only [Bool.and_eq_true, decide_eq_true_eq]
      omega

/-- The second byte of a character of four bytes is in the range of its leading byte. -/
theorem secondFits_four {char : Char} {lead second : UInt8} (low : 0x10000 ≤ char.toNat)
    (lead_eq : lead.toNat = char.toNat / 262144 + 0xF0)
    (second_eq : second.toNat = char.toNat / 4096 % 64 + 0x80) :
    secondFits lead second = true := by
  have range := toNat_cases char
  simp only [secondFits, isContinuation, UInt8.le_iff_toNat_le, ← UInt8.toNat_inj,
    UInt8.toNat_ofNat]
  rw [if_neg (by omega), if_neg (by omega)]
  split
  · simp only [Bool.and_eq_true, decide_eq_true_eq]
    omega
  · split <;> simp only [Bool.and_eq_true, decide_eq_true_eq] <;> omega

/-- Decoding an encoded character gives it back and goes on after it. -/
theorem Encoded.fromUtf8Lossy_append {char : Char} {encoded : List UInt8}
    (shape : Encoded char encoded) (rest : List UInt8) :
    fromUtf8Lossy (encoded ++ rest) = char :: fromUtf8Lossy rest := by
  have range := toNat_cases char
  cases shape with
  | @one lead small lead_eq =>
      have width : charWidth lead = 1 := charWidth_one (by omega)
      rw [List.singleton_append, fromUtf8Lossy.eq_def]
      simp only [width, ofNat_of_toNat lead_eq]
  | @two lead second low high lead_eq second_eq =>
      have second_fits : isContinuation second = true :=
        isContinuation_iff.mpr ⟨by omega, by omega⟩
      have code_eq : lead.toNat % 32 * 64 + payload second = char.toNat := by
        rw [payload]
        omega
      have width : charWidth lead = 2 := charWidth_two (by omega) (by omega)
      simp only [List.cons_append, List.nil_append]
      rw [fromUtf8Lossy.eq_def]
      simp only [width, second_fits, if_true, ofNat_of_toNat code_eq]
  | @three lead second third low high lead_eq second_eq third_eq =>
      have second_fits := secondFits_three low high lead_eq second_eq
      have third_fits : isContinuation third = true :=
        isContinuation_iff.mpr ⟨by omega, by omega⟩
      have code_eq : lead.toNat % 16 * 4096 + payload second * 64 + payload third =
          char.toNat := by
        simp only [payload]
        omega
      have width : charWidth lead = 3 := charWidth_three (by omega) (by omega)
      simp only [List.cons_append, List.nil_append]
      rw [fromUtf8Lossy.eq_def]
      simp only [width, second_fits, third_fits, if_true, ofNat_of_toNat code_eq]
  | @four lead second third fourth low lead_eq second_eq third_eq fourth_eq =>
      have second_fits := secondFits_four low lead_eq second_eq
      have third_fits : isContinuation third = true :=
        isContinuation_iff.mpr ⟨by omega, by omega⟩
      have fourth_fits : isContinuation fourth = true :=
        isContinuation_iff.mpr ⟨by omega, by omega⟩
      have code_eq : lead.toNat % 8 * 262144 + payload second * 4096 + payload third * 64 +
          payload fourth = char.toNat := by
        simp only [payload]
        omega
      have width : charWidth lead = 4 := charWidth_four (by omega) (by omega)
      simp only [List.cons_append, List.nil_append]
      rw [fromUtf8Lossy.eq_def]
      simp only [width, second_fits, third_fits, fourth_fits, if_true, ofNat_of_toNat code_eq]

/-- Decoding an encoded text gives it back and goes on after it. -/
theorem fromUtf8Lossy_bytes_append (text : Text) (rest : List UInt8) :
    fromUtf8Lossy (bytes text ++ rest) = text ++ fromUtf8Lossy rest := by
  induction text with
  | nil => rfl
  | cons char text ih =>
      rw [bytes_cons, List.append_assoc, (encoded_encodeChar char).fromUtf8Lossy_append, ih,
        List.cons_append]

theorem fromUtf8Lossy_bytes (text : Text) : fromUtf8Lossy (bytes text) = text := by
  have decoded := fromUtf8Lossy_bytes_append text []
  simpa [fromUtf8Lossy] using decoded

end Utf8Text
