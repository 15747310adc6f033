import Loraterm.EscapeStripper

/-!
# Carriage returns

`normalize_text` strips first and cleans carriage returns afterwards.  The stripper drops every
control byte but LF, so the second pass never sees a carriage return.
-/

namespace Loraterm

open Utf8Text UnitCut

/-! ## The CR pass -/

theorem crToLf_cons_of_ne {byte : UInt8} (other : byte ≠ 0x0D) (rest : List UInt8) :
    crToLf (byte :: rest) = byte :: crToLf rest := by
  rw [crToLf]
  · rw [if_neg other]
  · intro later cr
    exact absurd cr other

theorem crToLf_cr {rest : List UInt8} (bare : rest.head? ≠ some 0x0A) :
    crToLf (0x0D :: rest) = 0x0A :: crToLf rest := by
  rw [crToLf]
  · rfl
  · rintro later - rfl
    exact bare rfl

theorem crToLf_append_of_no_cr {front : List UInt8} (clean : 0x0D ∉ front) (rest : List UInt8) :
    crToLf (front ++ rest) = front ++ crToLf rest := by
  induction front with
  | nil => rfl
  | cons byte front ih =>
      rw [List.mem_cons, not_or] at clean
      rw [List.cons_append, crToLf_cons_of_ne (Ne.symm clean.1), ih clean.2, List.cons_append]

theorem crToLf_of_no_cr {block : List UInt8} (clean : 0x0D ∉ block) : crToLf block = block := by
  simpa [crToLf] using crToLf_append_of_no_cr clean []

/-! ## What normalization should do -/

/-- Each CR LF pair and each other CR becomes one LF, and every other byte stays. -/
inductive Normalizes : List UInt8 → List UInt8 → Prop
  | nil : Normalizes [] []
  | pair {block lines : List UInt8} (rest : Normalizes block lines) :
      Normalizes (0x0D :: 0x0A :: block) (0x0A :: lines)
  | bare {block lines : List UInt8} (unpaired : block.head? ≠ some 0x0A)
      (rest : Normalizes block lines) : Normalizes (0x0D :: block) (0x0A :: lines)
  | other {byte : UInt8} {block lines : List UInt8} (not_cr : byte ≠ 0x0D)
      (rest : Normalizes block lines) : Normalizes (byte :: block) (byte :: lines)

theorem normalizes_crToLf (block : List UInt8) : Normalizes block (crToLf block) := by
  induction block using crToLf.induct with
  | case1 => exact .nil
  | case2 rest ih => exact .pair ih
  | case3 byte rest not_pair ih =>
      by_cases cr : byte = 0x0D
      · subst cr
        have bare : rest.head? ≠ some 0x0A := by
          intro paired
          obtain ⟨later, rest_eq⟩ := List.head?_eq_some_iff.mp paired
          exact not_pair later rfl rest_eq
        rw [crToLf_cr bare]
        exact .bare bare ih
      · rw [crToLf_cons_of_ne cr]
        exact .other cr ih

/-- The CR pass alone does what normalization should do, and nothing else does. -/
theorem normalizes_iff {block lines : List UInt8} : Normalizes block lines ↔ lines = crToLf block := by
  constructor
  · intro normalizes
    induction normalizes with
    | nil => rfl
    | pair rest ih => rw [crToLf, ih]
    | bare unpaired rest ih => rw [crToLf_cr unpaired, ih]
    | other not_cr rest ih => rw [crToLf_cons_of_ne not_cr, ih]
  · rintro rfl
    exact normalizes_crToLf block

/-! ## What it does -/

/-- Printable ASCII, tab, LF and CR. -/
def isTyped (byte : UInt8) : Bool :=
  (0x20 ≤ byte && byte ≤ 0x7E) || byte == 0x09 || byte == 0x0A || byte == 0x0D

/-- The bytes that are printed, and LF. -/
def written (block : List UInt8) : List UInt8 := block.filter fun byte => byte == 0x0A || 0x20 ≤ byte

/-- The stripper writes only printed characters and LF. -/
def StripsControls (strip : List UInt8 → List UInt8) : Prop :=
  ∀ block, (∀ byte ∈ block, isTyped byte = true) → strip block = written block

/-- Every CR is directly followed by LF. -/
def PairedCr (block : List UInt8) : Prop :=
  ∀ before after, block = before ++ 0x0D :: after → after.head? = some 0x0A

theorem written_cons (byte : UInt8) (block : List UInt8) :
    written (byte :: block) =
      if (byte == 0x0A || 0x20 ≤ byte) = true then byte :: written block else written block :=
  List.filter_cons

theorem written_no_cr (block : List UInt8) : 0x0D ∉ written block := by
  intro member
  have writes := (List.mem_filter.mp member).2
  exact absurd writes (by decide)

/-- The CR pass loses no byte but the LF of a pair, and that one is written. -/
theorem length_written_le (block : List UInt8) : (written block).length ≤ (crToLf block).length := by
  induction block using crToLf.induct with
  | case1 => exact Nat.le_refl _
  | case2 rest ih =>
      have pair_eq : written (0x0D :: 0x0A :: rest) = 0x0A :: written rest := by simp [written]
      rw [pair_eq, crToLf]
      exact Nat.succ_le_succ ih
  | case3 byte rest not_pair ih =>
      rw [crToLf.eq_3 byte rest not_pair, List.length_cons, written_cons]
      split
      · exact Nat.succ_le_succ ih
      · exact Nat.le_succ_of_le ih

theorem pairedCr_cons {byte : UInt8} {block : List UInt8} :
    PairedCr (byte :: block) ↔ (byte = 0x0D → block.head? = some 0x0A) ∧ PairedCr block := by
  constructor
  · intro paired
    refine ⟨?_, fun before after block_eq => paired (byte :: before) after (by rw [block_eq]; rfl)⟩
    rintro rfl
    exact paired [] block rfl
  · rintro ⟨first, later⟩ before after block_eq
    cases before with
    | nil =>
        obtain ⟨byte_eq, rfl⟩ := List.cons_eq_cons.mp block_eq
        exact first byte_eq
    | cons head before =>
        obtain ⟨-, rfl⟩ := List.cons_eq_cons.mp block_eq
        exact later before after rfl

/-- Dropping the control bytes is what the CR pass does exactly when there is no tab and no bare
CR to drop. -/
theorem written_eq_crToLf_iff {block : List UInt8} (typed : ∀ byte ∈ block, isTyped byte = true) :
    written block = crToLf block ↔ 0x09 ∉ block ∧ PairedCr block := by
  induction block using crToLf.induct with
  | case1 => simp [written, crToLf, PairedCr]
  | case2 rest ih =>
      have pair_eq : written (0x0D :: 0x0A :: rest) = 0x0A :: written rest := by simp [written]
      have rest_iff := ih fun byte member => typed byte (by simp [member])
      rw [pair_eq, crToLf, List.cons_inj_right, rest_iff, pairedCr_cons, pairedCr_cons]
      simp
  | case3 byte rest not_pair ih =>
      have rest_iff := ih fun other member => typed other (by simp [member])
      have shorter := length_written_le rest
      rw [crToLf.eq_3 byte rest not_pair, pairedCr_cons]
      by_cases writes : (byte == 0x0A || 0x20 ≤ byte) = true
      · -- a printed byte or LF stays in both
        have not_cr : byte ≠ 0x0D := by
          rintro rfl
          exact absurd writes (by decide)
        have not_tab : byte ≠ 0x09 := by
          rintro rfl
          exact absurd writes (by decide)
        rw [written_cons, if_pos writes, if_neg not_cr, List.cons_inj_right, rest_iff]
        simp [not_cr, Ne.symm not_tab]
      · -- a tab or a bare CR is dropped, so the written text is shorter
        have control : byte = 0x09 ∨ byte = 0x0D := by
          have byte_typed := typed byte (by simp)
          simp only [isTyped, Bool.or_eq_true, Bool.and_eq_true, decide_eq_true_eq,
            beq_iff_eq, not_or] at byte_typed writes
          tauto
        have different : written rest ≠ (if byte = 0x0D then 0x0A else byte) :: crToLf rest := by
          intro same
          rw [same, List.length_cons] at shorter
          omega
        rw [written_cons, if_neg writes]
        refine iff_of_false different ?_
        rintro ⟨no_tab, first, -⟩
        rcases control with rfl | rfl
        · exact no_tab (by simp)
        · obtain ⟨later, rest_eq⟩ := List.head?_eq_some_iff.mp (first rfl)
          exact not_pair later rfl rest_eq

theorem ascii_of_isTyped {byte : UInt8} (typed : isTyped byte = true) :
    byte.toNat < 0x80 ∧ byte ≠ 0x1B := by
  simp only [isTyped, Bool.or_eq_true, Bool.and_eq_true, decide_eq_true_eq, beq_iff_eq,
    UInt8.le_iff_toNat_le, ← UInt8.toNat_inj, UInt8.toNat_ofNat, ne_eq] at typed ⊢
  omega

theorem stripsControls_of_stripsUnits {strip : List UInt8 → List UInt8} {keep : Char → Bool}
    (strips : StripsUnits strip keep) (newline : keep '\n' = true) (tab : keep '\t' = false)
    (cr : keep '\r' = false) : StripsControls strip := by
  intro block typed
  induction block with
  | nil => exact strips.unfinished [] (.inl rfl)
  | cons byte block ih =>
      have keep_eq : keep (asciiChar byte) = (byte == 0x0A || 0x20 ≤ byte) := by
        have byte_typed := typed byte (by simp)
        simp only [isTyped, Bool.or_eq_true, Bool.and_eq_true, decide_eq_true_eq,
          beq_iff_eq] at byte_typed
        rcases byte_typed with ((⟨low, high⟩ | rfl) | rfl) | rfl
        · rw [strips.printable _ (isControl_asciiChar (UInt8.le_iff_toNat_le.mp low)
            (Nat.lt_succ_of_le (UInt8.le_iff_toNat_le.mp high)))]
          simp [low]
        · exact tab
        · exact newline
        · exact cr
      have small := ascii_of_isTyped (typed byte (by simp))
      rw [strips.ascii small.1 small.2, ih (fun other member => typed other (by simp [member])),
        keep_eq, written_cons]
      split <;> rfl

/-- `normalize_text` replaces each CR LF pair and each other CR by one LF and keeps every other
byte exactly when the block has no tab and every CR in it is directly followed by LF. -/
theorem normalizes_text_iff (strip : List UInt8 → List UInt8) (strips : StripsControls strip)
    (block : List UInt8) (typed : ∀ byte ∈ block, isTyped byte = true) :
    Normalizes block (normalizeText strip block) ↔ 0x09 ∉ block ∧ PairedCr block := by
  rw [normalizes_iff, normalizeText, strips block typed]
  exact (congrArg (· = crToLf block) (crToLf_of_no_cr (written_no_cr block))).to_iff.trans
    (written_eq_crToLf_iff typed)

theorem stripsControls_reference : StripsControls referenceStrip :=
  stripsControls_of_stripsUnits stripsUnits_reference (by decide) (by decide) (by decide)

theorem normalizes_text_sample :
    Normalizes (bytes "a\r\nb".toList) (normalizeText referenceStrip (bytes "a\r\nb".toList)) ↔
      0x09 ∉ bytes "a\r\nb".toList ∧ PairedCr (bytes "a\r\nb".toList) :=
  normalizes_text_iff referenceStrip stripsControls_reference _ (by decide +kernel)

/-- Texts separated by a bare CR or by a tab are glued together. -/
theorem bare_cr_glues_text :
    StripsControls referenceStrip ∧
      normalizeText referenceStrip (bytes "a\rb".toList) = bytes "ab".toList ∧
      ¬ Normalizes (bytes "a\rb".toList) (bytes "ab".toList) ∧
      normalizeText referenceStrip (bytes "a\tb".toList) = bytes "ab".toList ∧
      ¬ Normalizes (bytes "a\tb".toList) (bytes "ab".toList) := by
  refine ⟨stripsControls_reference, by decide +kernel, ?_, by decide +kernel, ?_⟩
  · rw [normalizes_iff]
    decide +kernel
  · rw [normalizes_iff]
    decide +kernel

end Loraterm
