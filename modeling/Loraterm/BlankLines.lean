import Loraterm.Library.RunCut
import Loraterm.LineCap

/-!
# Runs of blank lines

`collapse_blank_lines` is the run cut of the library over the lines of a text, with blank lines
marked and a limit of two.
-/

namespace Loraterm

open Utf8Text LineSplit RunCut

/-! ## The loop over lines -/

/-- The lines that survive the collapse, after `blankRun` blank ones. -/
def collapsedLines : Nat → List Text → List Text
  | _, [] => []
  | blankRun, line :: later =>
      if (trim line).isEmpty then
        if blankRun + 1 ≤ 2 then
          line :: collapsedLines (blankRun + 1) later
        else
          collapsedLines (blankRun + 1) later
      else
        line :: collapsedLines 0 later

/-- What the collapse takes for blank: nothing is left of the line once trimmed. -/
def isBlankLine (line : Text) : Bool := (trim line).isEmpty

theorem isBlankLine_iff (line : Text) : isBlankLine line = true ↔ Blank line :=
  isEmpty_trim_iff line

theorem collapsedLines_eq_cutLoop (blankRun : Nat) (pieces : List Text) :
    collapsedLines blankRun pieces = cutLoop isBlankLine 2 blankRun pieces := by
  induction pieces generalizing blankRun with
  | nil => rfl
  | cons line later ih =>
      rw [collapsedLines, cutLoop, ih, ih]
      rfl

theorem collapseLoop_eq (blankRun : Nat) (pieces : List Text) :
    collapseLoop blankRun pieces = (collapsedLines blankRun pieces).flatten := by
  induction pieces generalizing blankRun with
  | nil => rfl
  | cons line later ih =>
      rw [collapseLoop, collapsedLines]
      split
      · split <;> simp [ih]
      · simp [ih]

theorem collapsedLines_sublist (blankRun : Nat) (pieces : List Text) :
    (collapsedLines blankRun pieces).Sublist pieces := by
  rw [collapsedLines_eq_cutLoop]
  exact cutLoop_sublist blankRun pieces

/-- The collapse drops whole lines. -/
theorem lines_collapseBlankLines (text : Text) :
    lines (collapseBlankLines text) = collapsedLines 0 (lines text) := by
  rw [lines, collapseBlankLines, collapseLoop_eq]
  exact ((isSplit_splitInclusive text).sublist
    (collapsedLines_sublist 0 _)).splitInclusive_flatten

theorem mem_of_mem_collapseBlankLines {text : Text} {char : Char}
    (member : char ∈ collapseBlankLines text) : char ∈ text := by
  rw [← flatten_lines (collapseBlankLines text), lines_collapseBlankLines] at member
  obtain ⟨line, kept, shown⟩ := List.mem_flatten.mp member
  rw [← flatten_lines text]
  exact List.mem_flatten.mpr ⟨line, (collapsedLines_sublist 0 (lines text)).subset kept, shown⟩

/-- Dropping blank lines hides nothing visible. -/
theorem visible_collapsedLines (blankRun : Nat) (pieces : List Text) :
    visible (collapsedLines blankRun pieces).flatten = visible pieces.flatten := by
  induction pieces generalizing blankRun with
  | nil => rfl
  | cons line later ih =>
      rw [collapsedLines, List.flatten_cons, visible_append]
      split
      · rename_i blank
        have hidden : visible line = [] :=
          (visible_eq_nil_iff line).mpr ((isEmpty_trim_iff line).mp blank)
        split <;> simp [hidden, ih]
      · simp [ih]

theorem visible_collapseBlankLines (text : Text) :
    visible (collapseBlankLines text) = visible text := by
  rw [collapseBlankLines, collapseLoop_eq, visible_collapsedLines, flatten_splitInclusive]

/-- Blank lines alone collapse to two at most. -/
theorem length_collapsedLines_of_blank (blankRun : Nat) {pieces : List Text}
    (blank : ∀ line ∈ pieces, Blank line) :
    (collapsedLines blankRun pieces).length ≤ 2 - blankRun := by
  have all_marked : ∀ line ∈ collapsedLines blankRun pieces, isBlankLine line = true := by
    intro line member
    rw [isBlankLine_iff]
    exact blank line ((collapsedLines_sublist blankRun pieces).subset member)
  rw [collapsedLines_eq_cutLoop] at all_marked ⊢
  exact (cutLoop_sparseAfter blankRun pieces).front _ (List.prefix_refl _) all_marked

/-! ## Runs -/

theorem lines_collapse_eq_cutLoop (text : Text) :
    lines (collapseBlankLines text) = cutLoop isBlankLine 2 0 (lines text) := by
  rw [lines_collapseBlankLines, collapsedLines_eq_cutLoop]

/-- No three blank lines in a row. -/
def NoBlankTriple (pieces : List Text) : Prop :=
  ∀ run, run <:+: pieces → (∀ line ∈ run, Blank line) → run.length ≤ 2

theorem noBlankTriple_iff_sparse (pieces : List Text) :
    NoBlankTriple pieces ↔ Sparse isBlankLine 2 pieces := by
  simp only [NoBlankTriple, Sparse, isBlankLine_iff]

/-- Texts are equal when their lines are. -/
theorem eq_of_lines_eq {left right : Text} (same : lines left = lines right) : left = right := by
  rw [← flatten_lines left, same, flatten_lines]

/-- A text without three blank lines in a row is all the collapse returns unchanged. -/
theorem collapseBlankLines_eq_self_iff (text : Text) :
    collapseBlankLines text = text ↔ NoBlankTriple (lines text) := by
  rw [noBlankTriple_iff_sparse, ← cutLoop_eq_self_iff, ← lines_collapse_eq_cutLoop]
  exact ⟨congrArg lines, eq_of_lines_eq⟩

theorem noBlankTriple_collapse (text : Text) :
    NoBlankTriple (lines (collapseBlankLines text)) := by
  rw [noBlankTriple_iff_sparse, lines_collapse_eq_cutLoop]
  exact (cutLoop_sparseAfter 0 (lines text)).later

/-- Every maximal run of blank lines is cut to its first two, every other line is kept. -/
theorem collapseBlankLines_exact (text : Text) :
    (∃ runs, MaximalRuns isBlankLine (lines text) runs ∧
      lines (collapseBlankLines text) = runs.flatMap (cutRun isBlankLine 2) ∧
      collapseBlankLines text = (runs.flatMap (cutRun isBlankLine 2)).flatten) ∧
    NoBlankTriple (lines (collapseBlankLines text)) ∧
    (lines (collapseBlankLines text)).filter (fun line => !isBlankLine line) =
      (lines text).filter (fun line => !isBlankLine line) ∧
    (collapseBlankLines text = text ↔ NoBlankTriple (lines text)) ∧
    collapseBlankLines (collapseBlankLines text) = collapseBlankLines text := by
  have maximal : MaximalRuns isBlankLine (lines text) _ := maximalRuns_splitBy (lines text)
  have runs_cut := maximal.cutLoop_eq.symm.trans (lines_collapse_eq_cutLoop text).symm
  refine ⟨⟨_, maximal, runs_cut.symm, ?_⟩, noBlankTriple_collapse text, ?_,
    collapseBlankLines_eq_self_iff text, ?_⟩
  · rw [runs_cut, flatten_lines]
  · rw [lines_collapse_eq_cutLoop, filter_cutLoop]
  · apply eq_of_lines_eq
    rw [lines_collapse_eq_cutLoop, lines_collapse_eq_cutLoop, cutLoop_cutLoop]

end Loraterm
