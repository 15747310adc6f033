import Loraterm.CarriageReturn

/-!
# Read boundaries

However the output of the child is cut into reads, the texts that the flushes hand on join to the
same text.  A push drains up to a newline, so no block ends inside a character or between CR and
LF, and stripping, cleaning and decoding work character by character on each block.
-/

namespace Loraterm

open Utf8Text UnitCut

/-! ## Carriage returns of a text -/

/-- Replace each CR LF pair and each other CR by one LF. -/
def crLines : Text → Text
  | [] => []
  | '\r' :: '\n' :: rest => '\n' :: crLines rest
  | char :: rest => (if char = '\r' then '\n' else char) :: crLines rest

theorem crLines_cons_of_ne {char : Char} (other : char ≠ '\r') (rest : Text) :
    crLines (char :: rest) = char :: crLines rest := by
  rw [crLines]
  · rw [if_neg other]
  · intro later cr
    exact absurd cr other

theorem crLines_cr {rest : Text} (bare : rest.head? ≠ some '\n') :
    crLines ('\r' :: rest) = '\n' :: crLines rest := by
  rw [crLines]
  · rfl
  · rintro later - rfl
    exact bare rfl

/-- Lines are cleaned one by one. -/
theorem crLines_append_newline (line rest : Text) :
    crLines (line ++ '\n' :: rest) = crLines (line ++ ['\n']) ++ crLines rest := by
  induction line using crLines.induct with
  | case1 => simp [crLines]
  | case2 line ih => simp [crLines, ih]
  | case3 char line not_pair ih =>
      by_cases cr : char = '\r'
      · subst cr
        cases line with
        | nil => simp [crLines]
        | cons next line =>
            have unpaired : next ≠ '\n' := by
              rintro rfl
              exact not_pair line rfl rfl
            have bare (later : Text) : (next :: line ++ later).head? ≠ some '\n' := by
              simpa using unpaired
            calc
              crLines ('\r' :: (next :: line ++ '\n' :: rest)) =
                  '\n' :: crLines (next :: line ++ '\n' :: rest) := crLines_cr (bare _)
              _ = '\n' :: crLines (next :: line ++ ['\n']) ++ crLines rest := by
                  rw [ih]
                  rfl
              _ = crLines ('\r' :: (next :: line ++ ['\n'])) ++ crLines rest := by
                  rw [crLines_cr (bare _)]
      · rw [List.cons_append, List.cons_append, crLines_cons_of_ne cr, crLines_cons_of_ne cr, ih,
          List.cons_append]

theorem encodeChar_newline : String.utf8EncodeChar '\n' = [0x0A] := by decide +kernel

theorem encodeChar_cr : String.utf8EncodeChar '\r' = [0x0D] := by decide +kernel

theorem head?_bytes_newline {text : Text} (first : (bytes text).head? = some 0x0A) :
    text.head? = some '\n' := by
  cases text with
  | nil => cases first
  | cons char text =>
      have shape := encoded_encodeChar char
      obtain ⟨lead, later, encode_eq⟩ := shape.exists_lead
      rw [bytes_cons, encode_eq, List.cons_append, List.head?_cons, Option.some.injEq] at first
      have member : 0x0A ∈ String.utf8EncodeChar char := by
        rw [encode_eq, first]
        simp
      have code := (shape.eq_of_ascii_mem (by decide) member).2
      rw [List.head?_cons, Char.toNat_inj.mp (show char.toNat = '\n'.toNat from code)]

theorem crToLf_bytes (text : Text) : crToLf (bytes text) = bytes (crLines text) := by
  induction text using crLines.induct with
  | case1 => rfl
  | case2 rest ih =>
      simp only [bytes_cons, encodeChar_newline, encodeChar_cr, List.singleton_append, crToLf,
        crLines, ih]
  | case3 char rest not_pair ih =>
      by_cases cr : char = '\r'
      · subst cr
        have bare : rest.head? ≠ some '\n' := by
          intro paired
          obtain ⟨later, rest_eq⟩ := List.head?_eq_some_iff.mp paired
          exact not_pair later rfl rest_eq
        have bare_bytes : (bytes rest).head? ≠ some 0x0A :=
          fun paired => bare (head?_bytes_newline paired)
        rw [crLines_cr bare, bytes_cons, encodeChar_cr, List.singleton_append,
          crToLf_cr bare_bytes, ih, bytes_cons, encodeChar_newline, List.singleton_append]
      · have clean : 0x0D ∉ String.utf8EncodeChar char := by
          intro member
          have code := ((encoded_encodeChar char).eq_of_ascii_mem (by decide) member).2
          exact cr (Char.toNat_inj.mp (show char.toNat = '\r'.toNat from code))
        rw [crLines_cons_of_ne cr, bytes_cons, crToLf_append_of_no_cr clean, ih, bytes_cons]

theorem count_crLines {char : Char} (not_cr : char ≠ '\r') (not_newline : char ≠ '\n')
    (text : Text) : (crLines text).count char = text.count char := by
  induction text using crLines.induct with
  | case1 => rfl
  | case2 rest ih =>
      rw [crLines, List.count_cons_of_ne (Ne.symm not_newline), ih,
        List.count_cons_of_ne (Ne.symm not_cr), List.count_cons_of_ne (Ne.symm not_newline)]
  | case3 other rest not_pair ih =>
      rw [crLines.eq_3 other rest not_pair, List.count_cons, List.count_cons, ih]
      by_cases cr : other = '\r'
      · simp [cr, Ne.symm not_cr, Ne.symm not_newline]
      · simp [cr]

/-! ## Text without escapes -/

/-- A text without ESC and C1 characters. -/
def Plain (text : Text) : Prop := ∀ char ∈ text, char ≠ escapeChar ∧ isC1 char = false

instance (text : Text) : Decidable (Plain text) :=
  List.decidableBAll (fun char => char ≠ escapeChar ∧ isC1 char = false) text

/-- On such a text the stripper works character by character: it keeps printable characters and
LF, and keeps or drops every other control character alike wherever it stands. -/
structure StripsCharacters (strip : List UInt8 → List UInt8) (keep : Char → Bool) : Prop where
  newline : keep '\n' = true
  printable : ∀ char, isControl char = false → keep char = true
  text : ∀ text, Plain text → strip (bytes text) = bytes (text.filter keep)

/-- The text a flush of complete characters hands on. -/
def cleanText (keep : Char → Bool) (text : Text) : Text :=
  questionMarks (crLines (text.filter keep))

section

variable {strip : List UInt8 → List UInt8} {keep : Char → Bool}

theorem StripsCharacters.blockText_bytes (strips : StripsCharacters strip keep) {text : Text}
    (plain : Plain text) : blockText strip (bytes text) = cleanText keep text := by
  rw [blockText, normalizeText, strips.text text plain, crToLf_bytes, fromUtf8Lossy_bytes, cleanText]

/-- Cleaning goes on afresh after a newline. -/
theorem cleanText_append (newline : keep '\n' = true) {line : Text}
    (ended : line.getLast? = some '\n') (rest : Text) :
    cleanText keep (line ++ rest) = cleanText keep line ++ cleanText keep rest := by
  obtain ⟨front, rfl⟩ := List.getLast?_eq_some_iff.mp ended
  have filtered : (front ++ ['\n'] ++ rest).filter keep =
      front.filter keep ++ '\n' :: rest.filter keep := by simp [newline]
  have line_filtered : (front ++ ['\n']).filter keep = front.filter keep ++ ['\n'] := by
    simp [newline]
  rw [cleanText, filtered, crLines_append_newline, questionMarks, List.map_append, cleanText,
    line_filtered]
  rfl

theorem cleanText_flatten (newline : keep '\n' = true) {lines : List Text}
    (ended : ∀ line ∈ lines, line.getLast? = some '\n') (final : Text) :
    (lines.map (cleanText keep)).flatten ++ cleanText keep final =
      cleanText keep (lines.flatten ++ final) := by
  induction lines with
  | nil => rfl
  | cons line lines ih =>
      rw [List.map_cons, List.flatten_cons, List.append_assoc,
        ih (fun other member => ended other (by simp [member])), List.flatten_cons,
        List.append_assoc, cleanText_append newline (ended line (by simp))]

theorem count_questionMarks (text : Text) :
    (questionMarks text).count '?' = text.count '?' + text.count replacement := by
  induction text with
  | nil => rfl
  | cons char text ih =>
      have distinct : replacement ≠ '?' := by decide
      rw [questionMarks, List.map_cons, List.count_cons, List.count_cons, List.count_cons,
        ← questionMarks, ih]
      by_cases replaced : char = replacement
      · simp [replaced, distinct]
        omega
      · simp [replaced]
        omega

/-- Question marks of the cleaned text are those of the text and its replacement characters. -/
theorem count_cleanText (printable : ∀ char, isControl char = false → keep char = true)
    (text : Text) :
    (cleanText keep text).count '?' = text.count '?' + text.count replacement := by
  rw [cleanText, count_questionMarks, count_crLines (by decide) (by decide),
    count_crLines (by decide) (by decide), List.count_filter (printable _ (by decide)),
    List.count_filter (printable _ (by decide))]

end

theorem stripsCharacters_of_stripsUnits {strip : List UInt8 → List UInt8} {keep : Char → Bool}
    (strips : StripsUnits strip keep) (newline : keep '\n' = true) :
    StripsCharacters strip keep := by
  refine ⟨newline, strips.printable, fun text plain => ?_⟩
  induction text with
  | nil => exact strips.unfinished [] (.inl rfl)
  | cons char text ih =>
      have stripped := strips.unit (.char char (plain char (by simp)).1) (bytes text)
      rw [ih fun other member => plain other (by simp [member])] at stripped
      calc
        strip (bytes (char :: text)) =
            bytes ([char].filter keep) ++ bytes (text.filter keep) := stripped
        _ = bytes ((char :: text).filter keep) := by
            rw [← bytes_append, ← List.filter_append]
            rfl

/-! ## Reads -/

/-- The pushes of a sequence of reads at their instants. -/
def pushes (reads : List (List UInt8 × Nat)) : List ChunkerCall :=
  reads.map fun read => .push read.1 read.2

theorem pushedBytes_pushes (reads : List (List UInt8 × Nat)) :
    pushedBytes (pushes reads) = (reads.map Prod.fst).flatten := by
  induction reads with
  | nil => rfl
  | cons read reads ih => exact congrArg (read.1 ++ ·) ih

/-- All blocks of pushes but the last, forced one end in a newline. -/
theorem blocks_pushes (chunker : Chunker) (reads : List (List UInt8 × Nat)) :
    ∃ committed last, chunker.blocks (pushes reads ++ [.flushForce]) = committed ++ [last] ∧
      ∀ block ∈ committed, block.getLast? = some 0x0A := by
  induction reads generalizing chunker with
  | nil => exact ⟨[], chunker.buf, rfl, by simp⟩
  | cons read reads ih =>
      obtain ⟨committed, last, blocks_eq, ended⟩ := ih (chunker.after (.push read.1 read.2))
      refine ⟨(chunker.drained (.push read.1 read.2)).toList ++ committed, last, ?_, ?_⟩
      · rw [List.append_assoc, ← blocks_eq]
        rfl
      · intro block member
        rcases List.mem_append.mp member with first | later
        · obtain ⟨⟨head, tail⟩, cut, rfl⟩ := Option.map_eq_some_iff.mp (Option.mem_toList.mp first)
          exact (Chunker.splitCommitted_eq_some cut).2.1
        · exact ended block later

theorem getLast?_of_bytes_newline {line : Text} (ended : (bytes line).getLast? = some 0x0A) :
    line.getLast? = some '\n' := by
  rcases List.eq_nil_or_concat line with rfl | ⟨front, char, rfl⟩
  · cases ended
  · have nonempty := lineUnits_chars.nonempty char
    simp only [List.concat_eq_append, bytes_append, bytes_cons, bytes_nil, List.append_nil] at ended
    rw [List.getLast?_append_of_ne_nil _ nonempty] at ended
    have member := List.mem_of_getLast? ended
    have code := ((encoded_encodeChar char).eq_of_ascii_mem (by decide) member).2
    simp [Char.toNat_inj.mp (show char.toNat = '\n'.toNat from code)]

theorem exists_push_of_mem {call : ChunkerCall} {reads : List (List UInt8 × Nat)}
    (member : call ∈ pushes reads) : ∃ bytes now, call = .push bytes now := by
  obtain ⟨read, -, rfl⟩ := List.mem_map.mp member
  exact ⟨_, _, rfl⟩

theorem pausesBetween_pushes {units : Text} (chunker : Chunker) (reads : List (List UInt8 × Nat)) :
    Chunker.PausesBetween String.utf8EncodeChar units chunker (pushes reads) := by
  intro before now after calls_eq
  have member : ChunkerCall.maybeFlush now ∈ pushes reads := by
    rw [calls_eq]
    simp
  obtain ⟨_, _, impossible⟩ := exists_push_of_mem member
  cases impossible

/-- Whatever the reads, the texts handed on join to the cleaned text. -/
theorem handedTexts_pushes {strip : List UInt8 → List UInt8} {keep : Char → Bool}
    (strips : StripsCharacters strip keep) (opts : ChunkerOpts) {text : Text} (plain : Plain text)
    {reads : List (List UInt8 × Nat)} (joined : (reads.map Prod.fst).flatten = bytes text) :
    ((Chunker.new opts).handedTexts strip (pushes reads ++ [.flushForce])).flatten =
      cleanText keep text := by
  have running : ∀ call ∈ pushes reads, call ≠ .flushForce := by
    intro call member
    obtain ⟨_, _, rfl⟩ := exists_push_of_mem member
    simp
  have stream_eq : (Chunker.new opts).buf ++ pushedBytes (pushes reads) =
      stream String.utf8EncodeChar text := (pushedBytes_pushes reads).trans joined
  obtain ⟨groups, groups_eq, blocks_eq⟩ :=
    Chunker.whole_blocks lineUnits_chars running stream_eq (pausesBetween_pushes _ reads)
  obtain ⟨committed, last, committed_eq, ended⟩ := blocks_pushes (Chunker.new opts) reads
  have groups_clean : groups.map (blockText strip ∘ stream String.utf8EncodeChar) =
      groups.map (cleanText keep) := by
    apply List.map_congr_left
    intro group member
    apply strips.blockText_bytes
    intro char char_mem
    apply plain
    rw [← groups_eq]
    exact List.mem_flatten_of_mem member char_mem
  obtain ⟨lines, finals, rfl, lines_eq, finals_eq⟩ :=
    List.map_eq_append_iff.mp (blocks_eq.trans committed_eq)
  obtain ⟨final, rfl⟩ : ∃ final, finals = [final] := by
    have single := congrArg List.length finals_eq
    rw [List.length_map] at single
    exact List.length_eq_one_iff.mp single
  have lines_ended : ∀ line ∈ lines, line.getLast? = some '\n' := by
    intro line member
    apply getLast?_of_bytes_newline
    exact ended _ (by rw [← lines_eq]; exact List.mem_map_of_mem member)
  calc
    ((Chunker.new opts).handedTexts strip (pushes reads ++ [.flushForce])).flatten =
        ((lines ++ [final]).map (cleanText keep)).flatten := by
          rw [Chunker.handedTexts, ← blocks_eq, List.map_map, groups_clean]
    _ = (lines.map (cleanText keep)).flatten ++ cleanText keep final := by simp
    _ = cleanText keep (lines.flatten ++ final) :=
          cleanText_flatten strips.newline lines_ended final
    _ = cleanText keep text := by
          rw [← groups_eq]
          simp

/-- Every way of cutting a text without escapes into reads hands on the same text, which is the
normalized text of the whole as one push, and the question marks in it are those of the text and
one for each replacement character of the text. -/
theorem read_boundaries (strip : List UInt8 → List UInt8) (keep : Char → Bool)
    (strips : StripsCharacters strip keep) (opts : ChunkerOpts) (text : Text) (plain : Plain text)
    (reads : List (List UInt8 × Nat)) (joined : (reads.map Prod.fst).flatten = bytes text) :
    let handed := fun reads =>
      ((Chunker.new opts).handedTexts strip (pushes reads ++ [.flushForce])).flatten
    (∀ others : List (List UInt8 × Nat), (others.map Prod.fst).flatten = bytes text →
        handed others = handed reads) ∧
      (∀ now, handed [(bytes text, now)] = handed reads) ∧
      handed reads = blockText strip (bytes text) ∧
      handed reads = questionMarks (crLines (text.filter keep)) ∧
      (handed reads).count '?' = text.count '?' + text.count replacement := by
  intro handed
  have handed_eq {others : List (List UInt8 × Nat)}
      (others_joined : (others.map Prod.fst).flatten = bytes text) :
      handed others = cleanText keep text := handedTexts_pushes strips opts plain others_joined
  refine ⟨fun others others_joined => ?_, fun now => ?_, ?_, handed_eq joined, ?_⟩
  · rw [handed_eq others_joined, handed_eq joined]
  · rw [handed_eq joined, handed_eq (by simp)]
  · rw [handed_eq joined, strips.blockText_bytes plain]
  · rw [handed_eq joined, count_cleanText strips.printable]

theorem stripsCharacters_reference : StripsCharacters referenceStrip referenceKeeps :=
  stripsCharacters_of_stripsUnits stripsUnits_reference (by decide)

theorem read_boundaries_sample :
    let handed := fun reads =>
      ((Chunker.new .default).handedTexts referenceStrip (pushes reads ++ [.flushForce])).flatten
    (∀ others : List (List UInt8 × Nat), (others.map Prod.fst).flatten = bytes ['é', '\n'] →
        handed others = handed [([0xC3], 0), ([0xA9, 0x0A], 1)]) ∧
      (∀ now, handed [(bytes ['é', '\n'], now)] = handed [([0xC3], 0), ([0xA9, 0x0A], 1)]) ∧
      handed [([0xC3], 0), ([0xA9, 0x0A], 1)] = blockText referenceStrip (bytes ['é', '\n']) ∧
      handed [([0xC3], 0), ([0xA9, 0x0A], 1)] =
        questionMarks (crLines (['é', '\n'].filter referenceKeeps)) ∧
      (handed [([0xC3], 0), ([0xA9, 0x0A], 1)]).count '?' =
        ['é', '\n'].count '?' + ['é', '\n'].count replacement :=
  read_boundaries referenceStrip referenceKeeps stripsCharacters_reference .default ['é', '\n']
    (by decide +kernel) [([0xC3], 0), ([0xA9, 0x0A], 1)] (by decide +kernel)

/-- A replacement character that the child wrote comes out as a question mark. -/
theorem replacement_becomes_question_mark :
    StripsCharacters referenceStrip referenceKeeps ∧ Plain [replacement, '\n'] ∧
      '?' ∉ [replacement, '\n'] ∧
      '?' ∈ ((Chunker.new .default).handedTexts referenceStrip
        (pushes [(bytes [replacement, '\n'], 0)] ++ [.flushForce])).flatten := by
  have plain : Plain [replacement, '\n'] := by decide +kernel
  refine ⟨stripsCharacters_reference, plain, by decide, ?_⟩
  rw [handedTexts_pushes stripsCharacters_reference .default plain (by simp)]
  decide

end Loraterm
