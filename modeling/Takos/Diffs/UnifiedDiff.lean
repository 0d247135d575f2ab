import Takos.Diffs.LineDiff
import Takos.Foundation.UnifiedPatches

/-!
# The printed diff

A diff is printed as one hunk over the pieces of both texts between their
newlines.  A text that ends with a newline, or is empty, has an empty last piece,
and no line says that the last one lacks its newline, so the patch speaks of both
texts with a newline added.
-/

namespace Takos.Diffs

open Takos.Foundation

inductive DiffLineType where
  | context
  | add
  | delete

structure DiffLine where
  type : DiffLineType
  content : Text
  oldLineNumber : Option Nat
  newLineNumber : Option Nat

structure DiffHunk where
  oldStart : Nat
  oldLines : Nat
  newStart : Nat
  newLines : Nat
  lines : List DiffLine

inductive FileStatus where
  | added
  | modified
  | deleted
  deriving DecidableEq

/-- The loop over the operations with the numbers of the last lines passed. -/
def numberLines : (oldNo newNo : Nat) → List (LineDiffOp Text) → List DiffLine
  | _, _, [] => []
  | oldNo, newNo, .equal line :: ops =>
    ⟨.context, line, some (oldNo + 1), some (newNo + 1)⟩ ::
      numberLines (oldNo + 1) (newNo + 1) ops
  | oldNo, newNo, .delete line :: ops =>
    ⟨.delete, line, some (oldNo + 1), none⟩ ::
      numberLines (oldNo + 1) newNo ops
  | oldNo, newNo, .insert line :: ops =>
    ⟨.add, line, none, some (newNo + 1)⟩ :: numberLines oldNo (newNo + 1) ops

def buildHunks (oldContent newContent : Text) : List DiffHunk :=
  let oldLines := Text.split '\n' oldContent
  let newLines := Text.split '\n' newContent
  let lines := numberLines 0 0 (diffLinesLcs oldLines newLines)
  if lines.isEmpty then []
  else
    [{ oldStart := if 0 < oldLines.length then 1 else 0
       oldLines := oldLines.length
       newStart := if 0 < newLines.length then 1 else 0
       newLines := newLines.length
       lines := lines }]

def generateDiffHunks (oldContent newContent : Text) : List DiffHunk :=
  buildHunks oldContent newContent

def fileHeader (path : Text) (status : FileStatus) : Text :=
  Text.join '\n'
    ([ "diff --git a/".toList ++ path ++ " b/".toList ++ path,
       if status = .added then "new file mode 100644".toList else [],
       if status = .deleted then "deleted file mode 100644".toList else [],
       "--- ".toList ++ (if status = .added then "/dev/null".toList
         else "a/".toList ++ path),
       "+++ ".toList ++ (if status = .deleted then "/dev/null".toList
         else "b/".toList ++ path) ].filter (· ≠ []))

def linePrefix : DiffLineType → Char
  | .add => '+'
  | .delete => '-'
  | .context => ' '

def hunkText (hunk : DiffHunk) : Text :=
  let lines := Text.join '\n'
    (hunk.lines.map fun line => linePrefix line.type :: line.content)
  ['@', '@', ' ', '-'] ++ (digits hunk.oldStart ++ ',' :: digits hunk.oldLines) ++
    [' ', '+'] ++ (digits hunk.newStart ++ ',' :: digits hunk.newLines) ++
    [' ', '@', '@'] ++ '\n' :: lines

def formatUnifiedDiff (path oldContent newContent : Text)
    (status : FileStatus) : Text :=
  let hunks := generateDiffHunks oldContent newContent
  let header := fileHeader path status
  if hunks.isEmpty then header ++ ['\n']
  else
    let body := Text.join '\n' (hunks.map hunkText)
    header ++ '\n' :: (body ++ ['\n'])

-- the last line is the empty piece after the last newline
example : formatUnifiedDiff ['f'] "a\nb\n".toList "a\n".toList .modified =
    "diff --git a/f b/f\n--- a/f\n+++ b/f\n@@ -1,3 +1,2 @@\n a\n-b\n \n".toList := by
  decide +kernel

/-- The hunks that stand after the header of the file. -/
def printedHunks (path oldContent newContent : Text) (status : FileStatus) :
    Option (List PatchHunk) :=
  readHunks ((formatUnifiedDiff path oldContent newContent status).drop
    ((fileHeader path status).length + 1))

/-- Well-formed hunks. -/
structure WellFormed (hunks : List PatchHunk) : Prop where
  counted : ∀ hunk ∈ hunks, hunk.Counted
  ordered : hunks.Pairwise PatchHunk.Before

/-- The printed diff is well formed and leads from the old text to the new
one. -/
def PatchCorrect (path oldContent newContent : Text) (status : FileStatus) :
    Prop :=
  ∃ hunks, printedHunks path oldContent newContent status = some hunks ∧
    WellFormed hunks ∧ applyPatch hunks oldContent = some newContent

section Printing

theorem numberLines_printed (oldNo newNo : Nat) (ops : List (LineDiffOp Text)) :
    (numberLines oldNo newNo ops).map
        (fun line => linePrefix line.type :: line.content) =
      ops.map markedLine := by
  induction ops generalizing oldNo newNo with
  | nil => rfl
  | cons op ops induction =>
      cases op with
      | equal line =>
          exact congrArg (List.cons _) (induction (oldNo + 1) (newNo + 1))
      | insert line =>
          exact congrArg (List.cons _) (induction oldNo (newNo + 1))
      | delete line =>
          exact congrArg (List.cons _) (induction (oldNo + 1) newNo)

theorem pieces_ne_nil (text : Text) : Text.split '\n' text ≠ [] :=
  List.splitOn_ne_nil '\n' text

theorem pieces_pos (text : Text) : 0 < (Text.split '\n' text).length :=
  List.length_pos_iff.mpr (pieces_ne_nil text)

variable {path oldContent newContent : Text} {status : FileStatus}

/-- The script between the pieces of two texts. -/
def pieceScript (oldContent newContent : Text) : List (LineDiffOp Text) :=
  diffLinesLcs (Text.split '\n' oldContent) (Text.split '\n' newContent)

theorem pieceScript_leads (oldContent newContent : Text) :
    EditScript.Leads (Text.split '\n' oldContent) (Text.split '\n' newContent)
      (pieceScript oldContent newContent) :=
  diffLinesLcs_leads _ _

theorem pieceScript_ne_nil : pieceScript oldContent newContent ≠ [] := by
  intro empty
  have leads := pieceScript_leads oldContent newContent
  rw [empty] at leads
  exact pieces_ne_nil oldContent leads.oldSide.symm

theorem buildHunks_eq (oldContent newContent : Text) :
    buildHunks oldContent newContent =
      [{ oldStart := 1
         oldLines := (Text.split '\n' oldContent).length
         newStart := 1
         newLines := (Text.split '\n' newContent).length
         lines := numberLines 0 0 (pieceScript oldContent newContent) }] := by
  have lines : ¬ (numberLines 0 0
      (pieceScript oldContent newContent)).isEmpty = true := by
    cases ops : pieceScript oldContent newContent with
    | nil => exact absurd ops pieceScript_ne_nil
    | cons op rest => cases op <;> exact Bool.false_ne_true
  rw [buildHunks]
  refine (if_neg lines).trans ?_
  rw [if_pos (pieces_pos oldContent), if_pos (pieces_pos newContent)]
  rfl

theorem hunkText_eq (ops : List (LineDiffOp Text)) (nonempty : ops ≠ []) :
    hunkText ⟨1, (EditScript.oldSide ops).length, 1,
        (EditScript.newSide ops).length, numberLines 0 0 ops⟩ =
      Text.join '\n' (printHunk 1 1 ops) := by
  cases ops with
  | nil => exact absurd rfl nonempty
  | cons op ops =>
      rw [printHunk, List.map_cons, Text.join_cons_cons, ← List.map_cons,
        ← numberLines_printed 0 0 (op :: ops)]
      rfl

theorem formatUnifiedDiff_eq :
    formatUnifiedDiff path oldContent newContent status =
      fileHeader path status ++ '\n' ::
        (Text.join '\n' (printHunk 1 1 (pieceScript oldContent newContent)) ++
          ['\n']) := by
  have leads := pieceScript_leads oldContent newContent
  rw [← hunkText_eq _ pieceScript_ne_nil, leads.oldSide, leads.newSide,
    formatUnifiedDiff, generateDiffHunks, buildHunks_eq]
  change fileHeader path status ++ '\n' ::
    (Text.join '\n' [hunkText _] ++ ['\n']) = _
  rw [Text.join_singleton]

theorem printedHunks_eq (path oldContent newContent : Text)
    (status : FileStatus) :
    printedHunks path oldContent newContent status =
      some [hunkOf 1 1 (pieceScript oldContent newContent)] := by
  have clean : ∀ text : Text, ∀ piece ∈ Text.split '\n' text, '\n' ∉ piece :=
    fun text piece member inside => (Text.mem_of_mem_split member inside).2 rfl
  have leads := pieceScript_leads oldContent newContent
  have length : (fileHeader path status ++ ['\n']).length =
      (fileHeader path status).length + 1 := List.length_append
  rw [printedHunks, formatUnifiedDiff_eq, List.append_cons,
    List.drop_left' length]
  apply readHunks_printHunk
  · rw [leads.oldSide]
    exact clean oldContent
  · rw [leads.newSide]
    exact clean newContent

theorem wellFormed_printed (oldContent newContent : Text) :
    WellFormed [hunkOf 1 1 (pieceScript oldContent newContent)] := by
  constructor
  · intro hunk member
    rw [List.mem_singleton.mp member]
    exact hunkOf_counted
  · exact List.pairwise_singleton _ _

end Printing

theorem applyPatch_printed (oldContent newContent : Text) :
    applyPatch [hunkOf 1 1 (pieceScript oldContent newContent)] oldContent =
      none := by
  have leads := pieceScript_leads oldContent newContent
  have old : EditScript.oldSide
      (hunkOf 1 1 (pieceScript oldContent newContent)).body =
        (Text.split '\n' oldContent).map TextLine.full := by
    change EditScript.oldSide (List.map _ _) = _
    rw [EditScript.oldSide_map, leads.oldSide]
  have every : ((Text.split '\n' oldContent).map TextLine.full).filter
      TextLine.ended = (Text.split '\n' oldContent).map TextLine.full := by
    apply List.filter_eq_self.mpr
    intro line member
    obtain ⟨piece, _, rfl⟩ := List.mem_map.mp member
    rfl
  rw [applyPatch, applyHunks_tooLong]
  · rfl
  · rw [old, every, List.length_map]
    exact TextLine.ended_ofPieces _ (pieces_ne_nil oldContent)

theorem applyPatch_newline (oldContent newContent : Text) :
    applyPatch [hunkOf 1 1 (pieceScript oldContent newContent)]
        (oldContent ++ ['\n']) = some (newContent ++ ['\n']) := by
  have leads := pieceScript_leads oldContent newContent
  have old : EditScript.oldSide
      (hunkOf 1 1 (pieceScript oldContent newContent)).body =
        TextLine.linesOf (oldContent ++ ['\n']) := by
    change EditScript.oldSide (List.map _ _) = _
    rw [EditScript.oldSide_map, leads.oldSide, TextLine.linesOf_newline]
  have new : EditScript.newSide
      (hunkOf 1 1 (pieceScript oldContent newContent)).body =
        (Text.split '\n' newContent).map TextLine.full := by
    change EditScript.newSide (List.map _ _) = _
    rw [EditScript.newSide_map, leads.newSide]
  have nonempty : TextLine.linesOf (oldContent ++ ['\n']) ≠ [] := by
    rw [TextLine.linesOf_newline]
    intro empty
    exact pieces_ne_nil oldContent (List.map_eq_nil_iff.mp empty)
  rw [applyPatch, applyHunks_whole hunkOf_counted rfl nonempty old, new,
    Option.map_some, TextLine.textOf_full _ (pieces_ne_nil newContent),
    Text.join_split]

/-- The printed diff is well formed but never applies to the old text; it leads
from the old text with one more newline to the new one with one more. -/
theorem unifiedDiff_never_applies (path oldContent newContent : Text)
    (status : FileStatus) :
    ¬ PatchCorrect path oldContent newContent status ∧
      ∃ hunks, printedHunks path oldContent newContent status = some hunks ∧
        WellFormed hunks ∧ applyPatch hunks oldContent = none ∧
        applyPatch hunks (oldContent ++ ['\n']) =
          some (newContent ++ ['\n']) := by
  have printed := printedHunks_eq path oldContent newContent status
  constructor
  · rintro ⟨hunks, read, _, applied⟩
    rw [printed] at read
    cases read
    rw [applyPatch_printed] at applied
    cases applied
  · exact ⟨_, printed, wellFormed_printed oldContent newContent,
      applyPatch_printed oldContent newContent,
      applyPatch_newline oldContent newContent⟩

/-- From a file that ends with a newline to another one. -/
theorem ended_file_refused :
    ¬ PatchCorrect ['f'] ['a', '\n'] ['b', '\n'] .modified := by
  rintro ⟨hunks, read, _, applied⟩
  rw [printedHunks_eq] at read
  cases read
  rw [applyPatch_printed] at applied
  cases applied

end Takos.Diffs
