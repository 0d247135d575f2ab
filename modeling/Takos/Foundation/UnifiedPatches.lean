import Takos.Foundation.EditScripts
import Takos.Foundation.Text

/-!
# Unified patches

The hunks of the unified format: a header with the place and the number of lines
on both sides, and then the kept, deleted and inserted lines, each marked by its
first character.  A line ends with a newline unless the next one starts with a
backslash.  A patch applies to a text whose lines are those that its hunks keep
and delete.
-/

namespace Takos.Foundation

/-- A line and whether a newline ends it. -/
structure TextLine where
  content : Text
  ended : Bool
  deriving DecidableEq

namespace TextLine

def text (line : TextLine) : Text :=
  if line.ended then line.content ++ ['\n'] else line.content

/-- The lines between the newlines; nothing after the last newline is no
line. -/
def ofPieces : List Text → List TextLine
  | [] => []
  | [last] => if last = [] then [] else [⟨last, false⟩]
  | piece :: pieces => ⟨piece, true⟩ :: ofPieces pieces

def linesOf (text : Text) : List TextLine := ofPieces (Text.split '\n' text)

def textOf (lines : List TextLine) : Text := lines.flatMap TextLine.text

/-- A line that a newline ends. -/
def full (content : Text) : TextLine := ⟨content, true⟩

theorem ofPieces_full (pieces : List Text) :
    ofPieces (pieces ++ [[]]) = pieces.map full := by
  induction pieces with
  | nil => rfl
  | cons piece pieces induction =>
      have more : ofPieces ((piece :: pieces) ++ [[]]) =
          full piece :: ofPieces (pieces ++ [[]]) := by
        cases pieces with
        | nil => rfl
        | cons next pieces => rfl
      rw [more, induction, List.map_cons]

theorem linesOf_newline (text : Text) :
    linesOf (text ++ ['\n']) = (Text.split '\n' text).map full := by
  rw [linesOf, Text.split_append_cons]
  exact ofPieces_full _

theorem ended_ofPieces (pieces : List Text) (nonempty : pieces ≠ []) :
    ((ofPieces pieces).filter TextLine.ended).length < pieces.length := by
  induction pieces with
  | nil => exact absurd rfl nonempty
  | cons piece pieces induction =>
      cases pieces with
      | nil =>
          rw [ofPieces]
          split
          · exact Nat.one_pos
          · exact Nat.one_pos
      | cons next pieces =>
          exact Nat.succ_lt_succ (induction (List.cons_ne_nil _ _))

theorem textOf_full (pieces : List Text) (nonempty : pieces ≠ []) :
    textOf (pieces.map full) = Text.join '\n' pieces ++ ['\n'] := by
  induction pieces with
  | nil => exact absurd rfl nonempty
  | cons piece pieces induction =>
      cases pieces with
      | nil =>
          rw [Text.join_singleton]
          exact List.append_nil _
      | cons next pieces =>
          have first : (full piece).text = piece ++ ['\n'] := if_pos rfl
          rw [Text.join_cons_cons, List.append_assoc, List.cons_append,
            ← induction (List.cons_ne_nil _ _), textOf, textOf, List.map_cons,
            List.flatMap_cons, first, List.append_assoc]
          rfl

end TextLine

structure PatchHunk where
  oldStart : Nat
  oldCount : Nat
  newStart : Nat
  newCount : Nat
  body : List (EditOp TextLine)

namespace PatchHunk

/-- The counts of the header are those of the body. -/
structure Counted (hunk : PatchHunk) : Prop where
  old : hunk.oldCount = (EditScript.oldSide hunk.body).length
  new : hunk.newCount = (EditScript.newSide hunk.body).length

/-- The first hunk ends before the second starts, on both sides. -/
structure Before (first second : PatchHunk) : Prop where
  old : first.oldStart + first.oldCount ≤ second.oldStart
  new : first.newStart + first.newCount ≤ second.newStart

end PatchHunk

/-- The number of lines before a hunk; an empty side names the line before
it. -/
def linesBefore (start count : Nat) : Nat :=
  if count = 0 then start else start - 1

/-- The hunks applied to the lines after the first `passed` ones. -/
def applyHunks : (passed : Nat) → List PatchHunk → List TextLine →
    Option (List TextLine)
  | _, [], lines => some lines
  | passed, hunk :: hunks, lines =>
    let before := linesBefore hunk.oldStart hunk.oldCount
    let skipped := before - passed
    let here := lines.drop skipped
    if passed ≤ before ∧ skipped ≤ lines.length ∧
        EditScript.oldSide hunk.body <+: here then
      (applyHunks (before + hunk.oldCount) hunks
        (here.drop hunk.oldCount)).map fun rest =>
          lines.take skipped ++ EditScript.newSide hunk.body ++ rest
    else none

def applyPatch (hunks : List PatchHunk) (text : Text) : Option Text :=
  (applyHunks 0 hunks (TextLine.linesOf text)).map TextLine.textOf

def readNumber (digits : Text) : Option Nat :=
  if digits ≠ [] ∧ digits.all Char.isDigit = true then
    some (Nat.ofDigitChars 10 digits 0)
  else none

/-- `start,count` or `start`, which counts one line. -/
def readRange (range : Text) : Option (Nat × Nat) :=
  match Text.split ',' range with
  | [start] => (readNumber start).map fun number => (number, 1)
  | [start, count] =>
    match readNumber start, readNumber count with
    | some number, some lines => some (number, lines)
    | _, _ => none
  | _ => none

/-- `@@ -range +range @@`. -/
def readHunkHeader (line : Text) : Option ((Nat × Nat) × (Nat × Nat)) :=
  match Text.split ' ' line with
  | ['@', '@'] :: ('-' :: old) :: ('+' :: new) :: ['@', '@'] :: _ =>
    match readRange old, readRange new with
    | some oldRange, some newRange => some (oldRange, newRange)
    | _, _ => none
  | _ => none

def isMarker (line : Text) : Bool := line.head? = some '\\'

/-- Whether a newline ends the line before these. -/
def endsLine (lines : List Text) : Bool := !lines.head?.any isMarker

/-- The lines of a hunk, as many as its header says, and the lines after it. -/
def readBody : List Text → (old new : Nat) →
    Option (List (EditOp TextLine) × List Text)
  | lines, 0, 0 => some ([], lines)
  | [], _, _ => none
  | ('\\' :: _) :: rest, old, new => readBody rest old new
  | (' ' :: content) :: rest, old + 1, new + 1 =>
    (readBody rest old new).map fun body =>
      (.equal ⟨content, endsLine rest⟩ :: body.1, body.2)
  | ('-' :: content) :: rest, old + 1, new =>
    (readBody rest old new).map fun body =>
      (.delete ⟨content, endsLine rest⟩ :: body.1, body.2)
  | ('+' :: content) :: rest, old, new + 1 =>
    (readBody rest old new).map fun body =>
      (.insert ⟨content, endsLine rest⟩ :: body.1, body.2)
  | _, _, _ => none

/-- The lines of a patch up to the piece after its last newline. -/
def readHunksFrom : (rounds : Nat) → List Text → Option (List PatchHunk)
  | _, [[]] => some []
  | 0, _ => none
  | _, [] => none
  | rounds + 1, line :: rest =>
    if isMarker line then readHunksFrom rounds rest
    else
      match readHunkHeader line with
      | none => none
      | some ((oldStart, oldCount), (newStart, newCount)) =>
        match readBody rest oldCount newCount with
        | none => none
        | some (body, others) =>
          (readHunksFrom rounds others).map fun hunks =>
            ⟨oldStart, oldCount, newStart, newCount, body⟩ :: hunks

def readHunks (text : Text) : Option (List PatchHunk) :=
  let lines := Text.split '\n' text
  readHunksFrom lines.length lines

def markedLine : EditOp Text → Text
  | .equal content => ' ' :: content
  | .insert content => '+' :: content
  | .delete content => '-' :: content

theorem isMarker_markedLine (op : EditOp Text) :
    isMarker (markedLine op) = false := by
  cases op with
  | equal | insert | delete => rfl

theorem endsLine_marked (script : List (EditOp Text)) (rest : List Text)
    (ends : endsLine rest = true) :
    endsLine (script.map markedLine ++ rest) = true := by
  cases script with
  | nil => exact ends
  | cons op script =>
      change (!isMarker (markedLine op)) = true
      rw [isMarker_markedLine]
      rfl

theorem readBody_cons (op : EditOp Text) (rest : List Text) (old new : Nat) :
    readBody (markedLine op :: rest) (old + op.oldItem.toList.length)
        (new + op.newItem.toList.length) =
      (readBody rest old new).map fun body =>
        (op.map (⟨·, endsLine rest⟩) :: body.1, body.2) := by
  cases op with
  | equal content => rfl
  | insert content =>
      cases old with
      | zero => rfl
      | succ old => rfl
  | delete content =>
      cases new with
      | zero => rfl
      | succ new => rfl

theorem readBody_marked (script : List (EditOp Text)) (rest : List Text)
    (ends : endsLine rest = true) :
    readBody (script.map markedLine ++ rest)
        (EditScript.oldSide script).length (EditScript.newSide script).length =
      some (script.map (EditOp.map TextLine.full), rest) := by
  induction script with
  | nil => cases rest <;> rfl
  | cons op script induction =>
      have next := endsLine_marked script rest ends
      have old : (EditScript.oldSide (op :: script)).length =
          (EditScript.oldSide script).length + op.oldItem.toList.length := by
        cases op <;> rfl
      have new : (EditScript.newSide (op :: script)).length =
          (EditScript.newSide script).length + op.newItem.toList.length := by
        cases op <;> rfl
      rw [List.map_cons, List.cons_append, old, new, readBody_cons, induction,
        next]
      rfl

def digits (number : Nat) : Text := Nat.toDigits 10 number

theorem isDigit_digits {number : Nat} {char : Char}
    (member : char ∈ digits number) : char.isDigit = true :=
  Nat.isDigit_of_mem_toDigits (by decide) (by decide) member

theorem readNumber_digits (number : Nat) :
    readNumber (digits number) = some number := by
  have all : (digits number).all Char.isDigit = true :=
    List.all_eq_true.mpr fun _ member => isDigit_digits member
  rw [readNumber, if_pos ⟨Nat.toDigits_ne_nil, all⟩, digits,
    Nat.ofDigitChars_ten_toDigits]

def printRange (start count : Nat) : Text :=
  digits start ++ ',' :: digits count

theorem printRange_clean {start count : Nat} {char : Char}
    (member : char ∈ printRange start count) :
    char = ',' ∨ char.isDigit = true := by
  rcases List.mem_append.mp member with front | back
  · exact .inr (isDigit_digits front)
  · rcases List.mem_cons.mp back with comma | digit
    · exact .inl comma
    · exact .inr (isDigit_digits digit)

theorem readRange_printRange (start count : Nat) :
    readRange (printRange start count) = some (start, count) := by
  have clean : ∀ part ∈ [digits start, digits count], ',' ∉ part := by
    intro part member comma
    have digit : Char.isDigit ',' = true := by
      rcases List.mem_cons.mp member with rfl | last
      · exact isDigit_digits comma
      · rw [List.mem_singleton.mp last] at comma
        exact isDigit_digits comma
    exact absurd digit (by decide)
  have parts : Text.split ',' (printRange start count) =
      [digits start, digits count] := by
    have split := Text.split_join clean (List.cons_ne_nil _ _)
    rw [Text.join_cons_cons, Text.join_singleton] at split
    exact split
  rw [readRange, parts]
  change (match readNumber (digits start), readNumber (digits count) with
    | some number, some lines => some (number, lines)
    | _, _ => none) = _
  rw [readNumber_digits, readNumber_digits]

def printHunkHeader (oldStart oldCount newStart newCount : Nat) : Text :=
  ['@', '@', ' ', '-'] ++ printRange oldStart oldCount ++ [' ', '+'] ++
    printRange newStart newCount ++ [' ', '@', '@']

theorem readHunkHeader_print (oldStart oldCount newStart newCount : Nat) :
    readHunkHeader (printHunkHeader oldStart oldCount newStart newCount) =
      some ((oldStart, oldCount), (newStart, newCount)) := by
  have range : ∀ start count, ' ' ∉ printRange start count := by
    intro start count blank
    rcases printRange_clean blank with comma | digit
    · exact absurd comma (by decide)
    · exact absurd digit (by decide)
  have clean : ∀ part ∈ [['@', '@'], '-' :: printRange oldStart oldCount,
      '+' :: printRange newStart newCount, ['@', '@']], ' ' ∉ part := by
    intro part member blank
    rcases List.mem_cons.mp member with rfl | second
    · exact absurd blank (by decide)
    · rcases List.mem_cons.mp second with rfl | third
      · exact range _ _ ((List.mem_cons.mp blank).resolve_left (by decide))
      · rcases List.mem_cons.mp third with rfl | last
        · exact range _ _ ((List.mem_cons.mp blank).resolve_left (by decide))
        · rw [List.mem_singleton.mp last] at blank
          exact absurd blank (by decide)
  have parts : Text.split ' '
      (printHunkHeader oldStart oldCount newStart newCount) =
        [['@', '@'], '-' :: printRange oldStart oldCount,
          '+' :: printRange newStart newCount, ['@', '@']] := by
    have split := Text.split_join clean (List.cons_ne_nil _ _)
    rw [Text.join_cons_cons, Text.join_cons_cons, Text.join_cons_cons,
      Text.join_singleton] at split
    rw [← split, printHunkHeader]
    simp only [List.append_assoc, List.cons_append, List.nil_append]
  rw [readHunkHeader, parts]
  change (match readRange (printRange oldStart oldCount),
      readRange (printRange newStart newCount) with
    | some oldRange, some newRange => some (oldRange, newRange)
    | _, _ => none) = _
  rw [readRange_printRange, readRange_printRange]

section OneHunk

/-- The printed lines of a hunk whose lines all end with a newline. -/
def printHunk (oldStart newStart : Nat) (script : List (EditOp Text)) :
    List Text :=
  printHunkHeader oldStart (EditScript.oldSide script).length newStart
      (EditScript.newSide script).length :: script.map markedLine

def hunkOf (oldStart newStart : Nat) (script : List (EditOp Text)) :
    PatchHunk where
  oldStart := oldStart
  oldCount := (EditScript.oldSide script).length
  newStart := newStart
  newCount := (EditScript.newSide script).length
  body := script.map (EditOp.map TextLine.full)

variable {oldStart newStart : Nat} {script : List (EditOp Text)}

theorem hunkOf_counted : (hunkOf oldStart newStart script).Counted := by
  constructor
  · change _ = (EditScript.oldSide (script.map _)).length
    rw [EditScript.oldSide_map, List.length_map]
    rfl
  · change _ = (EditScript.newSide (script.map _)).length
    rw [EditScript.newSide_map, List.length_map]
    rfl

theorem markedLine_clean {op : EditOp Text}
    (old : ∀ content, op.oldItem = some content → '\n' ∉ content)
    (new : ∀ content, op.newItem = some content → '\n' ∉ content) :
    '\n' ∉ markedLine op := by
  intro inside
  cases op with
  | equal content =>
      exact old content rfl ((List.mem_cons.mp inside).resolve_left (by decide))
  | insert content =>
      exact new content rfl ((List.mem_cons.mp inside).resolve_left (by decide))
  | delete content =>
      exact old content rfl ((List.mem_cons.mp inside).resolve_left (by decide))

theorem printHunkHeader_clean (oldStart oldCount newStart newCount : Nat) :
    '\n' ∉ printHunkHeader oldStart oldCount newStart newCount := by
  have range : ∀ start count, '\n' ∉ printRange start count := by
    intro start count inside
    rcases printRange_clean inside with comma | digit
    · exact absurd comma (by decide)
    · exact absurd digit (by decide)
  rw [printHunkHeader]
  simp only [List.mem_append, not_or]
  refine ⟨⟨⟨⟨by decide, range _ _⟩, by decide⟩, range _ _⟩, by decide⟩

theorem readHunksFrom_hunk {rounds : Nat} {line : Text}
    {rest others : List Text} {oldStart oldCount newStart newCount : Nat}
    {body : List (EditOp TextLine)} (nonempty : line ≠ [])
    (plain : isMarker line = false)
    (header : readHunkHeader line =
      some ((oldStart, oldCount), (newStart, newCount)))
    (lines : readBody rest oldCount newCount = some (body, others)) :
    readHunksFrom (rounds + 1) (line :: rest) =
      (readHunksFrom rounds others).map fun hunks =>
        ⟨oldStart, oldCount, newStart, newCount, body⟩ :: hunks := by
  cases line with
  | nil => exact absurd rfl nonempty
  | cons first line =>
      have unmarked : ¬ isMarker (first :: line) = true := by
        rw [plain]
        exact Bool.false_ne_true
      rw [readHunksFrom, if_neg unmarked, header]
      · change (match readBody rest oldCount newCount with
          | none => none
          | some (body, others) =>
            (readHunksFrom rounds others).map fun hunks =>
              (⟨oldStart, oldCount, newStart, newCount, body⟩ : PatchHunk) ::
                hunks) = _
        rw [lines]
      · nofun

theorem readHunks_printHunk
    (oldClean : ∀ content ∈ EditScript.oldSide script, '\n' ∉ content)
    (newClean : ∀ content ∈ EditScript.newSide script, '\n' ∉ content) :
    readHunks (Text.join '\n' (printHunk oldStart newStart script) ++ ['\n']) =
      some [hunkOf oldStart newStart script] := by
  have clean : ∀ line ∈ printHunk oldStart newStart script, '\n' ∉ line := by
    intro line member
    rcases List.mem_cons.mp member with rfl | later
    · exact printHunkHeader_clean _ _ _ _
    · obtain ⟨op, inScript, rfl⟩ := List.mem_map.mp later
      have sides := EditScript.item_mem inScript
      exact markedLine_clean
        (fun content here => oldClean content (sides.1 content here))
        fun content here => newClean content (sides.2 content here)
  have pieces : Text.split '\n'
      (Text.join '\n' (printHunk oldStart newStart script) ++ ['\n']) =
        printHunk oldStart newStart script ++ [[]] := by
    rw [Text.split_append_cons, Text.split_join clean (List.cons_ne_nil _ _)]
    rfl
  have read : readHunksFrom ((script.map markedLine ++ [[]]).length + 1)
      (printHunk oldStart newStart script ++ [[]]) = _ :=
    readHunksFrom_hunk (List.cons_ne_nil _ _) rfl (readHunkHeader_print _ _ _ _)
      (readBody_marked script [[]] rfl)
  rw [readHunks, pieces]
  refine read.trans ?_
  rw [List.length_append]
  rfl

end OneHunk

section Applying

variable {hunk : PatchHunk} {lines : List TextLine}

theorem applyHunks_whole (counted : hunk.Counted) (start : hunk.oldStart = 1)
    (nonempty : lines ≠ []) (whole : EditScript.oldSide hunk.body = lines) :
    applyHunks 0 [hunk] lines = some (EditScript.newSide hunk.body) := by
  have count : hunk.oldCount = lines.length := by rw [counted.old, whole]
  have lined : hunk.oldCount ≠ 0 := by
    rw [count]
    exact (List.length_pos_iff.mpr nonempty).ne'
  have first : linesBefore hunk.oldStart hunk.oldCount = 0 := by
    rw [linesBefore, if_neg lined, start]
  have front : EditScript.oldSide hunk.body <+: lines.drop (0 - 0) := by
    rw [whole]
    exact List.prefix_rfl
  rw [applyHunks, first]
  refine (if_pos ⟨le_rfl, Nat.zero_le _, front⟩).trans ?_
  rw [applyHunks, count, Nat.sub_self, List.drop_zero, List.drop_length,
    List.take_zero]
  exact congrArg some (List.append_nil _)

theorem applyHunks_tooLong
    (long : (lines.filter TextLine.ended).length <
      ((EditScript.oldSide hunk.body).filter TextLine.ended).length) :
    applyHunks 0 [hunk] lines = none := by
  rw [applyHunks]
  apply if_neg
  rintro ⟨_, _, front⟩
  have ended := (front.sublist.trans (List.drop_sublist _ lines)).filter
    TextLine.ended
  exact not_lt.mpr ended.length_le long

end Applying

end Takos.Foundation
