import Loraterm.ReadBoundaries

/-!
# Silence flushes

A silence flush drains whatever the child has written when it pauses.  When the bytes so far end
inside a control sequence, the rest of it is shown as text by the next flush; when they end inside
a character, the character is lost.

Charge each character of several bytes with one and each visible ASCII character with minus one.
A cut unit and a replacement character lower the charge of what is shown, and nothing raises it,
so what is shown has the charge of the stream only when no unit was cut.
-/

namespace Loraterm

open Utf8Text UnitCut

/-- The characters that can be seen, or are wider than one byte. -/
def isShown (char : Char) : Bool :=
  0x80 ≤ char.toNat || (0x20 ≤ char.toNat && char.toNat != 0x7F)

/-- The texts show the characters of the stream that can be seen or are wider than one byte, and
nothing else: no fragment of a control sequence and no substitute for a character. -/
def ShowsStream (units : List TerminalUnit) (texts : List Text) : Prop :=
  texts.flatten.filter isShown = (unitsText units).filter isShown

/-- No replacement character and no C1 character. -/
def Representable (text : Text) : Prop := ∀ char ∈ text, char ≠ replacement ∧ isC1 char = false

/-! ## Charges -/

/-- The charge of a character. -/
def charge (char : Char) : Int :=
  if 0x80 ≤ char.toNat then 1 else if isShown char then -1 else 0

/-- The charge of a text. -/
def chargeOf (text : Text) : Int := (text.map charge).sum

@[simp] theorem chargeOf_nil : chargeOf [] = 0 := rfl

@[simp] theorem chargeOf_cons (char : Char) (text : Text) :
    chargeOf (char :: text) = charge char + chargeOf text := by
  simp [chargeOf]

@[simp] theorem chargeOf_append (left right : Text) :
    chargeOf (left ++ right) = chargeOf left + chargeOf right := by
  simp [chargeOf]

theorem charge_of_control {char : Char} (control : isControl char = true)
    (not_c1 : isC1 char = false) : charge char = 0 := by
  simp only [isControl, not_c1, Bool.or_false, Bool.or_eq_true, decide_eq_true_eq,
    beq_iff_eq] at control
  have narrow : ¬ 0x80 ≤ char.toNat := by omega
  have hidden : isShown char = false := by
    simp only [isShown, Bool.or_eq_false_iff, Bool.and_eq_false_iff, decide_eq_false_iff_not,
      bne_eq_false_iff_eq]
    omega
  rw [charge, if_neg narrow, hidden, if_neg Bool.false_ne_true]

theorem isControl_of_shown {char : Char} (shown : isShown char = true)
    (not_c1 : isC1 char = false) : isControl char = false := by
  simp only [isControl, isShown, isC1, Bool.or_eq_false_iff, Bool.or_eq_true, Bool.and_eq_true,
    Bool.and_eq_false_iff, decide_eq_true_eq, decide_eq_false_iff_not, beq_eq_false_iff_ne,
    bne_iff_ne] at shown not_c1 ⊢
  omega

theorem chargeOf_filter_isShown (text : Text) : chargeOf (text.filter isShown) = chargeOf text := by
  induction text with
  | nil => rfl
  | cons char text ih =>
      rw [List.filter_cons, chargeOf_cons]
      split
      · rw [chargeOf_cons, ih]
      · rename_i hidden
        have charge_eq : charge char = 0 := by
          have narrow : ¬ 0x80 ≤ char.toNat := fun wide => hidden (by simp [isShown, wide])
          rw [charge, if_neg narrow, if_neg hidden]
        rw [ih, charge_eq, Int.zero_add]

/-! ## What a block shows -/

theorem isShown_questionMark (char : Char) :
    isShown (if char = replacement then '?' else char) = isShown char := by
  split
  · rename_i replaced
    rw [replaced]
    decide
  · rfl

theorem filter_crLines (text : Text) : (crLines text).filter isShown = text.filter isShown := by
  have newline : isShown '\n' = false := by decide
  have cr : isShown '\r' = false := by decide
  induction text using crLines.induct with
  | case1 => rfl
  | case2 rest ih => simp [crLines, newline, cr, ih]
  | case3 char rest not_pair ih =>
      rw [crLines.eq_3 char rest not_pair]
      by_cases is_cr : char = '\r'
      · simp [is_cr, newline, cr, ih]
      · simp [is_cr, List.filter_cons, ih]

/-- What a block shows, from what the stripper writes of it. -/
theorem shown_blockText {strip : List UInt8 → List UInt8} {block : List UInt8} {text : Text}
    (stripped : strip block = bytes text) :
    (blockText strip block).filter isShown = questionMarks (text.filter isShown) := by
  have commute : isShown ∘ (fun char => if char = replacement then '?' else char) = isShown :=
    funext isShown_questionMark
  rw [blockText, normalizeText, stripped, crToLf_bytes, fromUtf8Lossy_bytes, questionMarks,
    List.filter_map, commute, filter_crLines, questionMarks]

theorem questionMarks_of_representable {text : Text} (representable : Representable text) :
    questionMarks text = text := by
  induction text with
  | nil => rfl
  | cons char text ih =>
      have rest_eq := ih fun other member => representable other (by simp [member])
      rw [questionMarks, List.map_cons, if_neg (representable char (by simp)).1, ← questionMarks,
        rest_eq]

/-- The charge a block shows. -/
def shownCharge (strip : List UInt8 → List UInt8) (block : List UInt8) : Int :=
  chargeOf ((blockText strip block).filter isShown)

theorem shownCharge_eq {strip : List UInt8 → List UInt8} {block : List UInt8} {text : Text}
    (stripped : strip block = bytes text) :
    shownCharge strip block = chargeOf (questionMarks text) := by
  have commute : isShown ∘ (fun char => if char = replacement then '?' else char) = isShown :=
    funext isShown_questionMark
  rw [shownCharge, shown_blockText stripped, ← chargeOf_filter_isShown (questionMarks text),
    questionMarks, questionMarks, List.filter_map, commute]

/-! ## Complete units -/

section

variable {strip : List UInt8 → List UInt8} {keep : Char → Bool}

/-- A character keeps its charge, unless it is a replacement character or a C1 character. -/
theorem StripsUnits.charge_cases (strips : StripsUnits strip keep) (char : Char) :
    chargeOf (questionMarks ([char].filter keep)) ≤ charge char ∧
      (charge char ≤ chargeOf (questionMarks ([char].filter keep)) →
        char ≠ replacement ∧ isC1 char = false) := by
  by_cases replaced : char = replacement
  · have kept : keep char = true := strips.printable char (by rw [replaced]; decide)
    have filtered : [char].filter keep = [replacement] := by
      rw [List.filter_cons_of_pos kept, List.filter_nil, replaced]
    have shown : chargeOf (questionMarks ([char].filter keep)) = -1 := by
      rw [filtered]
      decide
    have charged : charge char = 1 := by
      rw [replaced]
      decide
    rw [shown, charged]
    omega
  · cases c1 : isC1 char with
    | true =>
        have dropped : keep char = false := strips.c1 char c1
        have wide : 0x80 ≤ char.toNat := by
          simp only [isC1, Bool.and_eq_true, decide_eq_true_eq] at c1
          exact c1.1
        simp [dropped, questionMarks, charge, wide]
    | false =>
        refine ⟨?_, fun _ => ⟨replaced, rfl⟩⟩
        cases kept : keep char with
        | true => simp [kept, questionMarks, replaced]
        | false =>
            have control : isControl char = true := by
              by_contra printed
              rw [strips.printable char (by simpa using printed)] at kept
              cases kept
            rw [charge_of_control control c1]
            simp [kept, questionMarks]

theorem questionMarks_filter_cons (char : Char) (text : Text) :
    questionMarks ((char :: text).filter keep) =
      questionMarks ([char].filter keep) ++ questionMarks (text.filter keep) := by
  rw [questionMarks, questionMarks, questionMarks, ← List.map_append, ← List.filter_append]
  rfl

theorem StripsUnits.charge_le (strips : StripsUnits strip keep) (text : Text) :
    chargeOf (questionMarks (text.filter keep)) ≤ chargeOf text := by
  induction text with
  | nil => rfl
  | cons char text ih =>
      have first := (strips.charge_cases char).1
      rw [questionMarks_filter_cons, chargeOf_append, chargeOf_cons]
      omega

/-- A text that keeps its charge is representable. -/
theorem StripsUnits.representable (strips : StripsUnits strip keep) {text : Text}
    (kept : chargeOf text ≤ chargeOf (questionMarks (text.filter keep))) : Representable text := by
  induction text with
  | nil => simp [Representable]
  | cons char text ih =>
      have first := strips.charge_cases char
      have rest := strips.charge_le text
      rw [questionMarks_filter_cons, chargeOf_append, chargeOf_cons] at kept
      intro other member
      rcases List.mem_cons.mp member with rfl | later
      · exact first.2 (by omega)
      · exact ih (by omega) other later

theorem StripsUnits.stream_append (strips : StripsUnits strip keep) (units : List TerminalUnit)
    (rest : List UInt8) :
    strip (stream TerminalUnit.encode units ++ rest) =
      bytes ((unitsText units).filter keep) ++ strip rest := by
  induction units with
  | nil => rfl
  | cons unit units ih =>
      have text_eq : unitsText (unit :: units) = unit.text ++ unitsText units := rfl
      rw [stream_cons, List.append_assoc, strips.unit, ih, text_eq, List.filter_append, bytes_append,
        List.append_assoc]

/-! ## Fragments -/

/-- What can follow the first byte of a unit: a visible ASCII or a continuation byte. -/
def LateByte (byte : UInt8) : Prop :=
  isContinuation byte = true ∨ (0x20 ≤ byte.toNat ∧ byte.toNat < 0x7F)

theorem no_fragment : ∀ byte ∈ ([] : List UInt8), LateByte byte := by simp

/-- The charge of a fragment shown on its own. -/
def lateCharge (late : List UInt8) : Int :=
  (late.map fun byte => if isContinuation byte then 0 else -1).sum

@[simp] theorem lateCharge_nil : lateCharge [] = 0 := rfl

@[simp] theorem lateCharge_append (left right : List UInt8) :
    lateCharge (left ++ right) = lateCharge left + lateCharge right := by
  simp [lateCharge]

theorem lateCharge_of_continuation {late : List UInt8}
    (continuation : ∀ byte ∈ late, isContinuation byte = true) : lateCharge late = 0 := by
  induction late with
  | nil => rfl
  | cons byte late ih =>
      have rest := ih fun other member => continuation other (by simp [member])
      rw [lateCharge] at rest ⊢
      rw [List.map_cons, List.sum_cons, if_pos (continuation byte (by simp)), rest, Int.zero_add]

theorem lateCharge_of_visible {late : List UInt8}
    (visible : ∀ byte ∈ late, 0x20 ≤ byte.toNat ∧ byte.toNat < 0x7F) :
    lateCharge late = -late.length := by
  induction late with
  | nil => rfl
  | cons byte late ih =>
      have rest := ih fun other member => visible other (by simp [member])
      have first := visible byte (by simp)
      have not_continuation : ¬ isContinuation byte = true := by
        rw [isContinuation_iff]
        omega
      rw [lateCharge] at rest ⊢
      rw [List.map_cons, List.sum_cons, if_neg not_continuation, rest, List.length_cons]
      omega

/-- A fragment at the start of a block is shown as visible ASCII or question marks. -/
theorem StripsUnits.late_append (strips : StripsUnits strip keep) {late rest : List UInt8}
    {text : Text} (fragment : ∀ byte ∈ late, LateByte byte) (stripped : strip rest = bytes text) :
    ∃ printed, strip (late ++ rest) = bytes (printed ++ text) ∧
      chargeOf (questionMarks printed) ≤ lateCharge late := by
  induction late with
  | nil => exact ⟨[], stripped, by simp [questionMarks]⟩
  | cons byte late ih =>
      obtain ⟨printed, late_eq, bound⟩ := ih fun other member => fragment other (by simp [member])
      have late_cons : lateCharge (byte :: late) =
          (if isContinuation byte then 0 else -1) + lateCharge late := by simp [lateCharge]
      rcases fragment byte (by simp) with continuation | visible
      · rcases strips.stray byte (late ++ rest) continuation with dropped | replaced
        · refine ⟨printed, by rw [List.cons_append, dropped, late_eq], ?_⟩
          rw [late_cons, if_pos continuation, Int.zero_add]
          exact bound
        · refine ⟨replacement :: printed, ?_, ?_⟩
          · rw [List.cons_append, replaced, late_eq, ← bytes_append]
            rfl
          · have question : questionMarks (replacement :: printed) = '?' :: questionMarks printed :=
              rfl
            have charged : charge '?' = -1 := by decide
            rw [late_cons, if_pos continuation, question, chargeOf_cons, charged]
            omega
      · have kept := strips.printable _ (isControl_asciiChar visible.1 visible.2)
        have not_continuation : ¬ isContinuation byte = true := by
          rw [isContinuation_iff]
          omega
        have not_escape : byte ≠ 0x1B := by
          rintro rfl
          exact absurd visible.1 (by decide)
        refine ⟨asciiChar byte :: printed, ?_, ?_⟩
        · have encode_eq := @encodeChar_asciiChar byte (by omega)
          rw [List.cons_append, strips.ascii (by omega) not_escape, if_pos kept, late_eq,
            ← encode_eq]
          rfl
        · have not_replaced : asciiChar byte ≠ replacement := by
            intro replaced
            have code := congrArg Char.toNat replaced
            rw [toNat_asciiChar] at code
            have replacement_code : replacement.toNat = 0xFFFD := by decide
            omega
          have charged : charge (asciiChar byte) = -1 := by
            simp [charge, isShown, toNat_asciiChar]
            omega
          rw [late_cons, if_neg not_continuation, questionMarks, List.map_cons,
            if_neg not_replaced, ← questionMarks, chargeOf_cons, charged]
          omega

/-- The late part of a cut unit shows less than the unit is charged with. -/
theorem late_of_cut {unit : TerminalUnit} {part late : List UInt8}
    (split : unit.encode = part ++ late) (part_ne : part ≠ []) (late_ne : late ≠ []) :
    (∀ byte ∈ late, LateByte byte) ∧ lateCharge late + 1 ≤ chargeOf unit.text := by
  have late_pos := List.length_pos_iff.mpr late_ne
  cases unit with
  | char char plain =>
      have shape : Encoded char (part ++ late) := by
        rw [← split]
        exact encoded_encodeChar char
      obtain ⟨lead, front, rfl⟩ := List.exists_cons_of_ne_nil part_ne
      have continuation : ∀ byte ∈ late, isContinuation byte = true :=
        fun byte member => shape.tail byte (List.mem_append_right _ member)
      have wide : 0x80 ≤ char.toNat := by
        by_contra narrow
        obtain ⟨_, -, single⟩ := shape.of_ascii (by omega)
        have lengths := congrArg List.length single
        simp only [List.length_append, List.length_cons, List.length_nil] at lengths
        omega
      have unit_charge : chargeOf (TerminalUnit.char char plain).text = 1 := by
        simp [TerminalUnit.text, charge, wide]
      refine ⟨fun byte member => .inl (continuation byte member), ?_⟩
      rw [unit_charge, lateCharge_of_continuation continuation]
      omega
  | csi sequence =>
      obtain ⟨first, front, rfl⟩ := List.exists_cons_of_ne_nil part_ne
      obtain ⟨-, body_eq⟩ := List.cons_eq_cons.mp split
      have visible : ∀ byte ∈ late, 0x20 ≤ byte.toNat ∧ byte.toNat < 0x7F := by
        intro byte member
        apply sequence.body_visible
        rw [body_eq]
        exact List.mem_append_right _ member
      have unit_charge : chargeOf (TerminalUnit.csi sequence).text = 0 := rfl
      refine ⟨fun byte member => .inr (visible byte member), ?_⟩
      rw [unit_charge, lateCharge_of_visible visible]
      omega

/-- The charge a block shows, with a fragment before and one after its complete units. -/
theorem StripsUnits.shownCharge_le (strips : StripsUnits strip keep) {late part : List UInt8}
    (fragment : ∀ byte ∈ late, LateByte byte) (units : List TerminalUnit)
    (unfinished : Unfinished TerminalUnit.encode part) :
    shownCharge strip (late ++ (stream TerminalUnit.encode units ++ part)) ≤
      lateCharge late + chargeOf (unitsText units) := by
  have stripped : strip (stream TerminalUnit.encode units ++ part) =
      bytes ((unitsText units).filter keep) := by
    rw [strips.stream_append, strips.unfinished part unfinished, List.append_nil]
  obtain ⟨printed, late_eq, bound⟩ := strips.late_append fragment stripped
  have kept := strips.charge_le (unitsText units)
  have split : questionMarks (printed ++ (unitsText units).filter keep) =
      questionMarks printed ++ questionMarks ((unitsText units).filter keep) := List.map_append
  rw [shownCharge_eq late_eq, split, chargeOf_append]
  omega

theorem unitsText_append (left right : List TerminalUnit) :
    unitsText (left ++ right) = unitsText left ++ unitsText right := by
  simp [unitsText]

/-- All blocks together show at most the charge of the stream. -/
theorem StripsUnits.shownCharge_sum_le (strips : StripsUnits strip keep)
    {blocks : List (List UInt8)} {late : List UInt8} {units : List TerminalUnit}
    (fragment : ∀ byte ∈ late, LateByte byte)
    (cut : blocks.flatten = late ++ stream TerminalUnit.encode units) :
    (blocks.map (shownCharge strip)).sum ≤ lateCharge late + chargeOf (unitsText units) := by
  induction blocks generalizing late units with
  | nil =>
      obtain ⟨rfl, stream_eq⟩ := List.append_eq_nil_iff.mp cut.symm
      rw [stream_eq_nil lineUnits_terminal.nonempty stream_eq]
      rfl
  | cons block blocks ih =>
      rw [List.map_cons, List.sum_cons]
      rw [List.flatten_cons, List.append_eq_append_iff] at cut
      rcases cut with ⟨later, rfl, rest_eq⟩ | ⟨front, rfl, stream_eq⟩
      · -- the block ends inside the fragment
        have inner : ∀ byte ∈ block, LateByte byte :=
          fun byte member => fragment byte (List.mem_append_left _ member)
        have first := strips.shownCharge_le inner [] (.inl rfl)
        have rest := ih (fun byte member => fragment byte (List.mem_append_right _ member)) rest_eq
        rw [lateCharge_append]
        simp [unitsText] at first
        omega
      · rcases cut_cases stream_eq with ⟨before, after, rfl, rfl, rest_eq⟩ |
          ⟨before, unit, after, part, late', rfl, split, part_ne, late_ne, rfl, rest_eq⟩
        · have first := strips.shownCharge_le fragment before (.inl rfl)
          have rest := ih no_fragment rest_eq
          rw [List.append_nil] at first
          rw [lateCharge_nil] at rest
          rw [unitsText_append, chargeOf_append]
          omega
        · have unfinished : Unfinished TerminalUnit.encode part := .inr ⟨unit, late', late_ne, split⟩
          obtain ⟨late_fragment, late_charge⟩ := late_of_cut split part_ne late_ne
          have first := strips.shownCharge_le fragment before unfinished
          have rest := ih late_fragment rest_eq
          have text_eq : unitsText (unit :: after) = unit.text ++ unitsText after := rfl
          rw [unitsText_append, chargeOf_append, text_eq, chargeOf_append]
          omega

/-- Complete units show the charge of what is kept of their text. -/
theorem StripsUnits.strip_stream (strips : StripsUnits strip keep) (units : List TerminalUnit) :
    strip (stream TerminalUnit.encode units) = bytes ((unitsText units).filter keep) := by
  have stripped := strips.stream_append units []
  rwa [List.append_nil, strips.unfinished [] (.inl rfl), List.append_nil] at stripped

/-- Blocks that show the charge of the whole stream are runs of complete representable units. -/
theorem StripsUnits.whole_of_charge (strips : StripsUnits strip keep)
    {blocks : List (List UInt8)} {units : List TerminalUnit}
    (cut : blocks.flatten = stream TerminalUnit.encode units)
    (charged : chargeOf (unitsText units) ≤ (blocks.map (shownCharge strip)).sum) :
    Representable (unitsText units) ∧ Whole TerminalUnit.encode units blocks := by
  induction blocks generalizing units with
  | nil =>
      rw [stream_eq_nil lineUnits_terminal.nonempty cut.symm]
      exact ⟨by simp [Representable, unitsText], [], rfl, rfl⟩
  | cons block blocks ih =>
      rw [List.map_cons, List.sum_cons] at charged
      rw [List.flatten_cons] at cut
      rcases cut_cases cut.symm with ⟨before, after, rfl, rfl, rest_eq⟩ |
        ⟨before, unit, after, part, late, rfl, split, part_ne, late_ne, rfl, rest_eq⟩
      · have first := shownCharge_eq (strips.strip_stream before)
        have first_le := strips.charge_le (unitsText before)
        have rest_le := strips.shownCharge_sum_le no_fragment rest_eq
        rw [unitsText_append, chargeOf_append] at charged
        rw [lateCharge_nil] at rest_le
        obtain ⟨rest_representable, rest_whole⟩ := ih rest_eq (by omega)
        have kept : chargeOf (unitsText before) ≤
            chargeOf (questionMarks ((unitsText before).filter keep)) := by omega
        have representable := strips.representable kept
        refine ⟨?_, rest_whole.cons⟩
        intro char member
        rw [unitsText_append] at member
        rcases List.mem_append.mp member with front | back
        · exact representable char front
        · exact rest_representable char back
      · -- a cut unit shows too little
        have unfinished : Unfinished TerminalUnit.encode part := .inr ⟨unit, late, late_ne, split⟩
        obtain ⟨late_fragment, late_charge⟩ := late_of_cut split part_ne late_ne
        have first := strips.shownCharge_le no_fragment before unfinished
        have rest := strips.shownCharge_sum_le late_fragment rest_eq
        have text_eq : unitsText (unit :: after) = unit.text ++ unitsText after := rfl
        rw [unitsText_append, chargeOf_append, text_eq, chargeOf_append] at charged
        rw [List.nil_append, lateCharge_nil] at first
        omega

/-- A run of complete representable units shows its text. -/
theorem StripsUnits.shown_stream (strips : StripsUnits strip keep) {units : List TerminalUnit}
    (representable : Representable (unitsText units)) :
    (blockText strip (stream TerminalUnit.encode units)).filter isShown =
      (unitsText units).filter isShown := by
  have kept : ((unitsText units).filter keep).filter isShown = (unitsText units).filter isShown := by
    rw [List.filter_filter]
    apply List.filter_congr
    intro char member
    cases shown : isShown char with
    | false => rfl
    | true =>
        have printed := isControl_of_shown shown (representable char member).2
        rw [strips.printable char printed]
        rfl
  have shown_representable : Representable ((unitsText units).filter isShown) :=
    fun char member => representable char (List.mem_filter.mp member).1
  rw [shown_blockText (strips.strip_stream units), kept,
    questionMarks_of_representable shown_representable]

end

/-! ## Calls -/

theorem Chunker.blocks_append (chunker : Chunker) (before after : List ChunkerCall) :
    chunker.blocks (before ++ after) =
      chunker.blocks before ++ (chunker.afterAll before).blocks after := by
  induction before generalizing chunker with
  | nil => rfl
  | cons call before ih =>
      rw [List.cons_append, Chunker.blocks, ih, Chunker.blocks, List.append_assoc]
      rfl

/-- Up to a call that leaves an empty buffer, the blocks are the bytes pushed. -/
theorem Chunker.flatten_blocks_of_emptied {chunker : Chunker} {before : List ChunkerCall}
    {last : ChunkerCall} (emptied : ((chunker.afterAll before).after last).buf = [])
    (pushes_nothing : last.pushed = []) :
    (chunker.blocks (before ++ [last])).flatten = chunker.buf ++ pushedBytes before := by
  have drained := blocks_append_buf chunker (before ++ [last])
  have after_eq : chunker.afterAll (before ++ [last]) = (chunker.afterAll before).after last := by
    simp [afterAll]
  rw [after_eq, emptied, List.append_nil] at drained
  rw [drained]
  simp [pushedBytes, pushes_nothing]

theorem Chunker.buf_after_silent {chunker : Chunker} {now : Nat}
    (silent : chunker.silent now = true) : (chunker.after (.maybeFlush now)).buf = [] := by
  rw [after, if_pos silent]
  rfl

/-- Blocks of complete units leave no silence flush inside a unit. -/
theorem Chunker.pausesBetween_of_whole {units : List TerminalUnit} {chunker : Chunker}
    {calls : List ChunkerCall}
    (whole : Whole TerminalUnit.encode units (chunker.blocks (calls ++ [.flushForce]))) :
    chunker.PausesBetween TerminalUnit.encode units calls := by
  rintro before now after rfl silent
  have calls_eq : before ++ .maybeFlush now :: after ++ [.flushForce] =
      (before ++ [.maybeFlush now]) ++ (after ++ [.flushForce]) := by simp
  rw [calls_eq, Chunker.blocks_append] at whole
  rw [← Chunker.flatten_blocks_of_emptied (Chunker.buf_after_silent silent) rfl]
  exact whole.between

theorem chargeOf_texts (strip : List UInt8 → List UInt8) (blocks : List (List UInt8)) :
    chargeOf ((blocks.map (blockText strip)).flatten.filter isShown) =
      (blocks.map (shownCharge strip)).sum := by
  induction blocks with
  | nil => rfl
  | cons block blocks ih =>
      rw [List.map_cons, List.flatten_cons, List.filter_append, chargeOf_append, ih, List.map_cons,
        List.sum_cons, shownCharge]

/-- Runs of complete representable units show their text. -/
theorem showsStream_of_groups {strip : List UInt8 → List UInt8} {keep : Char → Bool}
    (strips : StripsUnits strip keep) {groups : List (List TerminalUnit)}
    (representable : Representable (unitsText groups.flatten)) :
    ShowsStream groups.flatten
      ((groups.map (stream TerminalUnit.encode)).map (blockText strip)) := by
  induction groups with
  | nil => rfl
  | cons group groups ih =>
      rw [List.flatten_cons, unitsText_append] at representable
      have first : Representable (unitsText group) :=
        fun char member => representable char (List.mem_append_left _ member)
      have rest : Representable (unitsText groups.flatten) :=
        fun char member => representable char (List.mem_append_right _ member)
      have shown := ih rest
      rw [ShowsStream] at shown ⊢
      rw [List.map_cons, List.map_cons, List.flatten_cons, List.filter_append, shown,
        strips.shown_stream first, List.flatten_cons, unitsText_append, List.filter_append]

/-- The texts of a stream of complete characters and control sequences show exactly its visible
characters when it has no replacement and no C1 character and no silence flush that drains comes
inside a unit, and only then. -/
theorem silence_cuts_iff (strip : List UInt8 → List UInt8) (keep : Char → Bool)
    (strips : StripsUnits strip keep) (opts : ChunkerOpts) (units : List TerminalUnit)
    (calls : List ChunkerCall) (running : ∀ call ∈ calls, call ≠ .flushForce)
    (pushed : pushedBytes calls = stream TerminalUnit.encode units) :
    ShowsStream units ((Chunker.new opts).handedTexts strip (calls ++ [.flushForce])) ↔
      Representable (unitsText units) ∧
        (Chunker.new opts).PausesBetween TerminalUnit.encode units calls := by
  constructor
  · intro shows
    have cut : ((Chunker.new opts).blocks (calls ++ [.flushForce])).flatten =
        stream TerminalUnit.encode units := by
      rw [← pushed]
      exact Chunker.flatten_blocks_of_emptied rfl rfl
    have charged : chargeOf (unitsText units) ≤
        (((Chunker.new opts).blocks (calls ++ [.flushForce])).map (shownCharge strip)).sum := by
      rw [← chargeOf_texts, ← chargeOf_filter_isShown (unitsText units)]
      exact (congrArg chargeOf shows).ge
    obtain ⟨representable, whole⟩ := strips.whole_of_charge cut charged
    exact ⟨representable, Chunker.pausesBetween_of_whole whole⟩
  · rintro ⟨representable, paused⟩
    have stream_eq : (Chunker.new opts).buf ++ pushedBytes calls =
        stream TerminalUnit.encode units := pushed
    obtain ⟨groups, rfl, blocks_eq⟩ :=
      Chunker.whole_blocks lineUnits_terminal running stream_eq paused
    rw [Chunker.handedTexts, ← blocks_eq]
    exact showsStream_of_groups strips representable

/-- A red letter: the sequence that sets the color, and the letter in a line. -/
def redLine : List TerminalUnit :=
  [.csi ⟨[0x33, 0x31], [], 0x6D, by simp, by simp, by decide⟩, .char 'a' (by decide),
    .char '\n' (by decide)]

theorem silence_cuts_red_line :
    ShowsStream redLine ((Chunker.new .default).handedTexts referenceStrip
        ([.push (stream TerminalUnit.encode redLine) 0] ++ [.flushForce])) ↔
      Representable (unitsText redLine) ∧
        (Chunker.new .default).PausesBetween TerminalUnit.encode redLine
          [.push (stream TerminalUnit.encode redLine) 0] :=
  silence_cuts_iff referenceStrip referenceKeeps stripsUnits_reference .default redLine
    [.push (stream TerminalUnit.encode redLine) 0] (by simp) (by simp [pushedBytes, ChunkerCall.pushed])

/-- A pause after `ESC [` shows the rest of the sequence, and one inside a character loses it. -/
theorem silence_flush_cuts_units :
    StripsUnits referenceStrip referenceKeeps ∧
      pushedBytes [.push [0x1B, 0x5B] 0, .maybeFlush 600000000,
        .push (bytes "31ma\n".toList) 1000000000] = stream TerminalUnit.encode redLine ∧
      ¬ ShowsStream redLine ((Chunker.new .default).handedTexts referenceStrip
        [.push [0x1B, 0x5B] 0, .maybeFlush 600000000, .push (bytes "31ma\n".toList) 1000000000,
          .flushForce]) ∧
      (((Chunker.new .default).afterAll [.push [0x1B, 0x5B] 0, .maybeFlush 600000000]).call
        referenceStrip (.push (bytes "31ma\n".toList) 1000000000)).map Prod.snd =
          some ["31ma".toList] ∧
      (((Chunker.new .default).afterAll [.push [0xC3] 0, .maybeFlush 600000000]).call
        referenceStrip (.push [0xA9, 0x0A] 1000000000)).map Prod.snd = some ["?".toList] := by
  refine ⟨stripsUnits_reference, by decide +kernel, ?_, by decide +kernel, by decide +kernel⟩
  rw [ShowsStream]
  decide +kernel

end Loraterm
