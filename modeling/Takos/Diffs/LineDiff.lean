import Takos.Foundation.EditScripts
import Mathlib.Tactic.Ring

/-!
# The line diff

The lengths of common subsequences of all prefixes are filled into one flat
array of 16-bit cells, row by row, and the script is read off backwards from the
last cell.
-/

namespace Takos.Diffs

open Takos.Foundation

variable {Line : Type}

abbrev LineDiffOp (Line : Type) := EditOp Line

section Algorithm

variable [DecidableEq Line]

/-- The cell of a line pair, counted from one; `i` and `j` are one less. -/
def fillCell (oldLine : Line) (newLines : List Line) (width i : Nat)
    (dp : Array UInt16) (j : Nat) : Array UInt16 :=
  let idx := (i + 1) * width + (j + 1)
  if some oldLine = newLines[j]? then
    dp.setIfInBounds idx (dp.getD (i * width + j) 0 + 1)
  else
    let up := dp.getD (i * width + (j + 1)) 0
    let left := dp.getD ((i + 1) * width + j) 0
    dp.setIfInBounds idx (if left ≤ up then up else left)

def fillRow (newLines : List Line) (dp : Array UInt16)
    (row : Line × Nat) : Array UInt16 :=
  (List.range newLines.length).foldl
    (fillCell row.1 newLines (newLines.length + 1) row.2) dp

def fillTable (oldLines newLines : List Line) : Array UInt16 :=
  oldLines.zipIdx.foldl (fillRow newLines)
    (Array.replicate ((oldLines.length + 1) * (newLines.length + 1)) 0)

/-- The loop from the last cell.  The lines before it are given last one first,
and the script is collected in front of `ops`. -/
def backtrack (dp : Array UInt16) (width : Nat) :
    (olds news : List Line) → (ops : List (LineDiffOp Line)) →
      List (LineDiffOp Line)
  | old :: olds, new :: news, ops =>
    if old = new then backtrack dp width olds news (.equal new :: ops)
    else
      let up := dp.getD (olds.length * width + (news.length + 1)) 0
      let left := dp.getD ((olds.length + 1) * width + news.length) 0
      if left ≤ up then
        backtrack dp width olds (new :: news) (.delete old :: ops)
      else backtrack dp width (old :: olds) news (.insert new :: ops)
  -- the loops over what is left of one side
  | old :: olds, [], ops =>
    (old :: olds).foldl (fun ops line => .delete line :: ops) ops
  | [], news, ops => news.foldl (fun ops line => .insert line :: ops) ops
termination_by olds news => olds.length + news.length

def diffLinesLcs (oldLines newLines : List Line) : List (LineDiffOp Line) :=
  backtrack (fillTable oldLines newLines) (newLines.length + 1)
    oldLines.reverse newLines.reverse []

end Algorithm

section Validity

theorem view_foldl {View : Type} (view : List (LineDiffOp Line) → View)
    (edit : Line → LineDiffOp Line)
    (skipped : ∀ line ops, view (edit line :: ops) = view ops)
    (lines : List Line) (ops : List (LineDiffOp Line)) :
    view (lines.foldl (fun ops line => edit line :: ops) ops) = view ops := by
  induction lines generalizing ops with
  | nil => rfl
  | cons line lines induction => exact (induction _).trans (skipped line ops)

theorem side_foldl {side : List (LineDiffOp Line) → List Line}
    (edit : Line → LineDiffOp Line)
    (adds : ∀ line ops, side (edit line :: ops) = line :: side ops)
    (lines : List Line) (ops : List (LineDiffOp Line)) :
    side (lines.foldl (fun ops line => edit line :: ops) ops) =
      lines.reverse ++ side ops := by
  induction lines generalizing ops with
  | nil => rfl
  | cons line lines induction =>
      rw [List.foldl_cons, induction, List.reverse_cons, List.append_assoc, adds]
      rfl

variable [DecidableEq Line]

theorem backtrack_leads (dp : Array UInt16) (width : Nat) (olds news : List Line)
    (ops : List (LineDiffOp Line)) :
    EditScript.Leads (olds.reverse ++ EditScript.oldSide ops)
      (news.reverse ++ EditScript.newSide ops)
      (backtrack dp width olds news ops) := by
  fun_induction backtrack dp width olds news ops with
  | case1 olds new news ops induction =>
      constructor
      · rw [induction.oldSide, List.reverse_cons, List.append_assoc]
        rfl
      · rw [induction.newSide, List.reverse_cons, List.append_assoc]
        rfl
  | case2 old olds new news ops different up left most induction =>
      constructor
      · rw [induction.oldSide, List.reverse_cons, List.append_assoc]
        rfl
      · exact induction.newSide
  | case3 old olds new news ops different up left least induction =>
      constructor
      · exact induction.oldSide
      · rw [induction.newSide, List.reverse_cons, List.append_assoc]
        rfl
  | case4 old olds ops =>
      constructor
      · exact side_foldl .delete (fun _ _ => rfl) (old :: olds) ops
      · exact view_foldl _ .delete (fun _ _ => rfl) (old :: olds) ops
  | case5 news ops =>
      constructor
      · exact view_foldl _ .insert (fun _ _ => rfl) news ops
      · exact side_foldl .insert (fun _ _ => rfl) news ops

/-- Whatever the table holds, the script leads from the old lines to the new
ones. -/
theorem diffLinesLcs_leads (oldLines newLines : List Line) :
    EditScript.Leads oldLines newLines (diffLinesLcs oldLines newLines) := by
  have leads := backtrack_leads (fillTable oldLines newLines)
    (newLines.length + 1) oldLines.reverse newLines.reverse []
  have old : oldLines.reverse.reverse ++
      EditScript.oldSide ([] : List (LineDiffOp Line)) = oldLines := by
    rw [List.reverse_reverse]
    exact List.append_nil oldLines
  have new : newLines.reverse.reverse ++
      EditScript.newSide ([] : List (LineDiffOp Line)) = newLines := by
    rw [List.reverse_reverse]
    exact List.append_nil newLines
  rw [old, new] at leads
  exact leads

end Validity

end Takos.Diffs

/-!
# The cells of the line diff

The loops fill every cell with the recurrence of common subsequences, counted in
16 bits.  Where no common subsequence has 65536 lines the cells are their
lengths, and the script keeps a longest one.
-/

namespace Takos.Diffs

open Takos.Foundation

variable {Line : Type} [DecidableEq Line]

/-- A row of the table from the row above it. -/
def rowValue (oldLine : Option Line) (newLines : List Line)
    (above : Nat → UInt16) : Nat → UInt16
  | 0 => 0
  | j + 1 =>
    if oldLine = newLines[j]? then above j + 1
    else
      let up := above (j + 1)
      let left := rowValue oldLine newLines above j
      if left ≤ up then up else left

def cellValue (oldLines newLines : List Line) : Nat → Nat → UInt16
  | 0 => fun _ => 0
  | i + 1 => rowValue oldLines[i]? newLines (cellValue oldLines newLines i)

theorem cellValue_left (oldLines newLines : List Line) (i : Nat) :
    cellValue oldLines newLines i 0 = 0 := by
  cases i <;> rfl

/-- The cells before a place are filled, and those after it are zero. -/
structure FilledTo (oldLines newLines : List Line) (rows cols : Nat)
    (dp : Array UInt16) : Prop where
  size : dp.size = (oldLines.length + 1) * (newLines.length + 1)
  cells : ∀ i ≤ oldLines.length, ∀ j ≤ newLines.length,
    dp.getD (i * (newLines.length + 1) + j) 0 =
      if i ≤ rows ∨ (i = rows + 1 ∧ j ≤ cols) then
        cellValue oldLines newLines i j
      else 0

section Filling

variable {oldLines newLines : List Line} {dp : Array UInt16}

theorem cell_inj {width i j other place : Nat} (inside : j < width)
    (also : place < width)
    (same : i * width + j = other * width + place) : i = other ∧ j = place := by
  have columns := congrArg (· % width) same
  simp only [Nat.mul_add_mod_of_lt inside, Nat.mul_add_mod_of_lt also]
    at columns
  rw [columns] at same
  have positive : 0 < width := by omega
  exact ⟨Nat.eq_of_mul_eq_mul_right positive (Nat.add_right_cancel same),
    columns⟩

theorem cell_lt {width rows i j : Nat} (row : i ≤ rows) (inside : j < width) :
    i * width + j < (rows + 1) * width := by
  have top : i * width ≤ rows * width := Nat.mul_le_mul_right width row
  rw [Nat.add_mul, one_mul]
  omega

theorem getD_setIfInBounds (dp : Array UInt16) (idx : Nat) (value : UInt16)
    (other : Nat) (inside : idx < dp.size) :
    (dp.setIfInBounds idx value).getD other 0 =
      if other = idx then value else dp.getD other 0 := by
  rw [Array.getD_eq_getD_getElem?, Array.getElem?_setIfInBounds,
    Array.getD_eq_getD_getElem?]
  by_cases here : other = idx
  · rw [if_pos here.symm, if_pos here, if_pos inside]
    rfl
  · rw [if_neg fun same => here same.symm, if_neg here]

theorem FilledTo.initial (oldLines newLines : List Line) :
    FilledTo oldLines newLines 0 0
      (Array.replicate ((oldLines.length + 1) * (newLines.length + 1)) 0) where
  size := Array.size_replicate
  cells i _ j _ := by
    have zero : (Array.replicate ((oldLines.length + 1) *
        (newLines.length + 1)) (0 : UInt16)).getD
          (i * (newLines.length + 1) + j) 0 = 0 := by
      rw [Array.getD_eq_getD_getElem?, Array.getElem?_replicate]
      split <;> rfl
    rw [zero]
    split
    · rename_i filled
      rcases filled with top | ⟨_, left⟩
      · rw [Nat.le_zero.mp top]
        rfl
      · rw [Nat.le_zero.mp left, cellValue_left]
    · rfl

theorem FilledTo.cell {i j : Nat} (filled : FilledTo oldLines newLines i j dp)
    {oldLine : Line} (line : oldLines[i]? = some oldLine)
    (col : j < newLines.length) :
    FilledTo oldLines newLines i (j + 1)
      (fillCell oldLine newLines (newLines.length + 1) i dp j) := by
  have row : i < oldLines.length := (List.getElem?_eq_some_iff.mp line).1
  have inside : (i + 1) * (newLines.length + 1) + (j + 1) < dp.size := by
    rw [filled.size]
    exact cell_lt row (Nat.succ_lt_succ col)
  have diagonal := filled.cells i row.le j col.le
  have up := filled.cells i row.le (j + 1) col
  have left := filled.cells (i + 1) row j col.le
  rw [if_pos (.inl le_rfl)] at diagonal up
  rw [if_pos (.inr ⟨rfl, le_rfl⟩)] at left
  have written : fillCell oldLine newLines (newLines.length + 1) i dp j =
      dp.setIfInBounds ((i + 1) * (newLines.length + 1) + (j + 1))
        (cellValue oldLines newLines (i + 1) (j + 1)) := by
    have value : cellValue oldLines newLines (i + 1) (j + 1) =
        if some oldLine = newLines[j]? then cellValue oldLines newLines i j + 1
        else if cellValue oldLines newLines (i + 1) j ≤
            cellValue oldLines newLines i (j + 1) then
          cellValue oldLines newLines i (j + 1)
        else cellValue oldLines newLines (i + 1) j := by
      rw [← line]
      rfl
    rw [value, fillCell, diagonal, up, left]
    by_cases same : some oldLine = newLines[j]?
    · rw [if_pos same, if_pos same]
    · rw [if_neg same, if_neg same]
  rw [written]
  constructor
  · rw [Array.size_setIfInBounds]
    exact filled.size
  · intro a rowBound b colBound
    rw [getD_setIfInBounds _ _ _ _ inside]
    by_cases here : a = i + 1 ∧ b = j + 1
    · obtain ⟨rfl, rfl⟩ := here
      rw [if_pos rfl, if_pos (.inr ⟨rfl, le_rfl⟩)]
    · have elsewhere : a * (newLines.length + 1) + b ≠
          (i + 1) * (newLines.length + 1) + (j + 1) :=
        fun same => here (cell_inj (Nat.lt_succ_of_le colBound)
          (Nat.succ_lt_succ col) same)
      rw [if_neg elsewhere, filled.cells a rowBound b colBound]
      have condition : (a ≤ i ∨ (a = i + 1 ∧ b ≤ j)) ↔
          (a ≤ i ∨ (a = i + 1 ∧ b ≤ j + 1)) := by omega
      simp only [condition]

theorem FilledTo.row {i : Nat} (filled : FilledTo oldLines newLines i 0 dp)
    {oldLine : Line} (line : oldLines[i]? = some oldLine) :
    FilledTo oldLines newLines (i + 1) 0
      (fillRow newLines dp (oldLine, i)) := by
  have cells : ∀ cols ≤ newLines.length, FilledTo oldLines newLines i cols
      ((List.range cols).foldl
        (fillCell oldLine newLines (newLines.length + 1) i) dp) := by
    intro cols bound
    induction cols with
    | zero => exact filled
    | succ cols induction =>
        rw [List.range_succ, List.foldl_append]
        exact (induction (Nat.le_of_succ_le bound)).cell line bound
  have whole := cells newLines.length le_rfl
  constructor
  · exact whole.size
  · intro a rowBound b colBound
    refine (whole.cells a rowBound b colBound).trans ?_
    by_cases done : a ≤ i + 1
    · rw [if_pos (by omega), if_pos (.inl done)]
    · rw [if_neg (by omega)]
      split
      · rename_i first
        rw [Nat.le_zero.mp (first.resolve_left done).2, cellValue_left]
      · rfl

theorem fillTable_filled (oldLines newLines : List Line) :
    FilledTo oldLines newLines oldLines.length 0
      (fillTable oldLines newLines) := by
  have rows : ∀ (rest : List Line) (i : Nat) (dp : Array UInt16),
      oldLines.drop i = rest → FilledTo oldLines newLines i 0 dp →
      FilledTo oldLines newLines (i + rest.length) 0
        ((rest.zipIdx i).foldl (fillRow newLines) dp) := by
    intro rest
    induction rest with
    | nil => exact fun _ _ _ filled => filled
    | cons first rest induction =>
        intro i dp left filled
        have line : oldLines[i]? = some first := by
          have head : (oldLines.drop i)[0]? = oldLines[i + 0]? :=
            List.getElem?_drop
          rw [left] at head
          exact head.symm
        have next : oldLines.drop (i + 1) = rest := by
          rw [← List.drop_drop, left]
          rfl
        rw [List.zipIdx_cons, List.foldl_cons, List.length_cons,
          ← Nat.add_assoc, Nat.add_right_comm]
        exact induction (i + 1) _ next (filled.row line)
  have whole := rows oldLines 0 _ rfl (.initial oldLines newLines)
  rw [Nat.zero_add] at whole
  exact whole

theorem fillTable_cell {i j : Nat} (row : i ≤ oldLines.length)
    (col : j ≤ newLines.length) :
    (fillTable oldLines newLines).getD (i * (newLines.length + 1) + j) 0 =
      cellValue oldLines newLines i j := by
  rw [(fillTable_filled oldLines newLines).cells i row j col,
    if_pos (.inl row)]

end Filling

section Lengths

variable {oldLines newLines : List Line} {total : Nat}

/-- Where no common subsequence has 65536 lines, no cell overflows. -/
theorem cellValue_longest (longest : LongestCommon oldLines newLines total)
    (narrow : total < 65536) {i j : Nat} (row : i ≤ oldLines.length)
    (col : j ≤ newLines.length) :
    LongestCommon (oldLines.take i) (newLines.take j)
      (cellValue oldLines newLines i j).toNat := by
  induction i generalizing j with
  | zero => exact .nil_left _
  | succ i above =>
      induction j with
      | zero =>
          rw [cellValue_left]
          exact .nil_right _
      | succ j beside =>
          have diagonal := above (Nat.le_of_succ_le row) (Nat.le_of_succ_le col)
          have up := above (Nat.le_of_succ_le row) col
          have left := beside (Nat.le_of_succ_le col)
          have oldTake : oldLines.take (i + 1) =
              oldLines.take i ++ [oldLines[i]] :=
            (List.take_append_getElem row).symm
          have newTake : newLines.take (j + 1) =
              newLines.take j ++ [newLines[j]] :=
            (List.take_append_getElem col).symm
          have value : cellValue oldLines newLines (i + 1) (j + 1) =
              if oldLines[i] = newLines[j] then
                cellValue oldLines newLines i j + 1
              else if cellValue oldLines newLines (i + 1) j ≤
                  cellValue oldLines newLines i (j + 1) then
                cellValue oldLines newLines i (j + 1)
              else cellValue oldLines newLines (i + 1) j := by
            have lines : oldLines[i]? = newLines[j]? ↔
                oldLines[i] = newLines[j] := by
              rw [List.getElem?_eq_getElem row, List.getElem?_eq_getElem col]
              exact Option.some_inj
            exact if_congr lines rfl rfl
          rw [value]
          by_cases same : oldLines[i] = newLines[j]
          · rw [if_pos same]
            have longer := diagonal.concat_equal oldLines[i]
            rw [← oldTake, same, ← newTake] at longer
            have small := longer.mono longest (List.take_sublist _ _)
              (List.take_sublist _ _)
            have sum : (cellValue oldLines newLines i j + 1).toNat =
                (cellValue oldLines newLines i j).toNat + 1 := by
              rw [UInt16.toNat_add]
              exact Nat.mod_eq_of_lt (by
                change _ + 1 < 65536
                omega)
            rw [sum]
            exact longer
          · rw [if_neg same]
            rw [newTake] at up
            rw [oldTake] at left
            have both := up.concat_differ same left
            rw [← oldTake, ← newTake] at both
            split
            · rename_i most
              rw [max_eq_left (UInt16.le_iff_toNat_le.mp most)] at both
              exact both
            · rename_i most
              have least : (cellValue oldLines newLines i (j + 1)).toNat ≤
                  (cellValue oldLines newLines (i + 1) j).toNat := by
                have apart := fun le => most (UInt16.le_iff_toNat_le.mpr le)
                exact (not_le.mp apart).le
              rw [max_eq_right least] at both
              exact both

/-- The table tells the lengths for all lines that are left. -/
def Measures (dp : Array UInt16) (width : Nat) (oldLines newLines : List Line) :
    Prop :=
  ∀ olds news : List Line, olds.reverse <+: oldLines →
    news.reverse <+: newLines →
    LongestCommon olds.reverse news.reverse
      (dp.getD (olds.length * width + news.length) 0).toNat

omit [DecidableEq Line] in
theorem prefix_of_cons {line : Line} {lines whole : List Line}
    (front : (line :: lines).reverse <+: whole) : lines.reverse <+: whole := by
  rw [List.reverse_cons] at front
  exact (List.prefix_append _ _).trans front

theorem length_kept_backtrack {dp : Array UInt16} {width : Nat}
    (measures : Measures dp width oldLines newLines) (olds news : List Line)
    (ops : List (LineDiffOp Line)) (oldFront : olds.reverse <+: oldLines)
    (newFront : news.reverse <+: newLines) {length : Nat}
    (longest : LongestCommon olds.reverse news.reverse length) :
    (EditScript.kept (backtrack dp width olds news ops)).length =
      (EditScript.kept ops).length + length := by
  fun_induction backtrack dp width olds news ops generalizing length with
  | case1 olds new news ops induction =>
      have inner := measures olds news (prefix_of_cons oldFront)
        (prefix_of_cons newFront)
      have outer := inner.concat_equal new
      rw [← List.reverse_cons, ← List.reverse_cons] at outer
      rw [induction (prefix_of_cons oldFront) (prefix_of_cons newFront) inner,
        longest.unique outer]
      change (EditScript.kept ops).length + 1 + _ = _
      omega
  | case2 old olds new news ops different up left most induction =>
      have above : LongestCommon olds.reverse (new :: news).reverse up.toNat :=
        measures olds (new :: news) (prefix_of_cons oldFront) newFront
      have beside : LongestCommon (old :: olds).reverse news.reverse left.toNat :=
        measures (old :: olds) news oldFront (prefix_of_cons newFront)
      rw [List.reverse_cons] at above beside
      have both := above.concat_differ different beside
      rw [max_eq_left (UInt16.le_iff_toNat_le.mp most), ← List.reverse_cons,
        ← List.reverse_cons] at both
      rw [← List.reverse_cons] at above
      rw [induction (prefix_of_cons oldFront) newFront above,
        longest.unique both]
      rfl
  | case3 old olds new news ops different up left least induction =>
      have above : LongestCommon olds.reverse (new :: news).reverse up.toNat :=
        measures olds (new :: news) (prefix_of_cons oldFront) newFront
      have beside : LongestCommon (old :: olds).reverse news.reverse left.toNat :=
        measures (old :: olds) news oldFront (prefix_of_cons newFront)
      rw [List.reverse_cons] at above beside
      have both := above.concat_differ different beside
      have less : up.toNat ≤ left.toNat := by
        have apart := fun le => least (UInt16.le_iff_toNat_le.mpr le)
        exact (not_le.mp apart).le
      rw [max_eq_right less, ← List.reverse_cons, ← List.reverse_cons] at both
      rw [← List.reverse_cons] at beside
      rw [induction oldFront (prefix_of_cons newFront) beside,
        longest.unique both]
      rfl
  | case4 old olds ops =>
      rw [longest.unique (.nil_right _)]
      exact congrArg List.length
        (view_foldl _ .delete (fun _ _ => rfl) (old :: olds) ops)
  | case5 news ops =>
      rw [longest.unique (.nil_left _)]
      exact congrArg List.length
        (view_foldl _ .insert (fun _ _ => rfl) news ops)

theorem fillTable_measures (longest : LongestCommon oldLines newLines total)
    (narrow : total < 65536) :
    Measures (fillTable oldLines newLines) (newLines.length + 1) oldLines
      newLines := by
  intro olds news oldFront newFront
  have row : olds.length ≤ oldLines.length := by
    rw [← List.length_reverse]
    exact oldFront.length_le
  have col : news.length ≤ newLines.length := by
    rw [← List.length_reverse]
    exact newFront.length_le
  have lengths := cellValue_longest longest narrow row col
  have cell : (fillTable oldLines newLines).getD
      (olds.length * (newLines.length + 1) + news.length) 0 =
        cellValue oldLines newLines olds.length news.length :=
    fillTable_cell row col
  have oldTake : oldLines.take olds.length = olds.reverse := by
    rw [← List.length_reverse]
    exact (List.prefix_iff_eq_take.mp oldFront).symm
  have newTake : newLines.take news.length = news.reverse := by
    rw [← List.length_reverse]
    exact (List.prefix_iff_eq_take.mp newFront).symm
  rw [cell, ← oldTake, ← newTake]
  exact lengths

theorem diffLinesLcs_minimal (longest : LongestCommon oldLines newLines total)
    (narrow : total < 65536) :
    (EditScript.kept (diffLinesLcs oldLines newLines)).length = total := by
  have kept := length_kept_backtrack (fillTable_measures longest narrow)
    oldLines.reverse newLines.reverse []
    (by rw [List.reverse_reverse]) (by rw [List.reverse_reverse])
    (by rw [List.reverse_reverse, List.reverse_reverse]; exact longest)
  exact kept.trans (Nat.zero_add total)

end Lengths

section Overflow

variable {item last : Line}

theorem length_kept_backtrack_le (dp : Array UInt16) (width : Nat)
    (olds news : List Line) (ops : List (LineDiffOp Line)) :
    (EditScript.kept (backtrack dp width olds news ops)).length ≤
      olds.length + (EditScript.kept ops).length := by
  fun_induction backtrack dp width olds news ops with
  | case1 olds new news ops induction =>
      have more : (EditScript.kept (EditOp.equal new :: ops)).length =
          (EditScript.kept ops).length + 1 := rfl
      rw [List.length_cons]
      omega
  | case2 old olds new news ops different up left most induction =>
      have same : EditScript.kept (EditOp.delete old :: ops) =
          EditScript.kept ops := rfl
      rw [same] at induction
      rw [List.length_cons]
      omega
  | case3 old olds new news ops different up left least induction =>
      exact induction
  | case4 old olds ops =>
      rw [view_foldl EditScript.kept .delete fun _ _ => rfl]
      exact Nat.le_add_left _ _
  | case5 news ops =>
      rw [view_foldl EditScript.kept .insert fun _ _ => rfl]
      exact Nat.le_add_left _ _

/-- On the diagonal of equal lines the cells count modulo 65536. -/
theorem cellValue_diagonal (item last : Line) {i n : Nat} (row : i ≤ n) :
    cellValue (List.replicate n item) (List.replicate n item ++ [last]) i i =
      UInt16.ofNat i := by
  induction i with
  | zero => rfl
  | succ i induction =>
      have old : (List.replicate n item)[i]? = some item :=
        List.getElem?_replicate_of_lt row
      have new : (List.replicate n item ++ [last])[i]? = some item := by
        rw [List.getElem?_append_left (by rw [List.length_replicate]; exact row)]
        exact old
      have value : cellValue (List.replicate n item)
          (List.replicate n item ++ [last]) (i + 1) (i + 1) =
            cellValue (List.replicate n item)
              (List.replicate n item ++ [last]) i i + 1 :=
        if_pos (old.trans new.symm)
      rw [value, induction (Nat.le_of_succ_le row)]
      exact (UInt16.ofNat_add i 1).symm

/-- Where the count wraps to zero, a line that both sides have is deleted. -/
theorem diffLinesLcs_overflow (different : item ≠ last) {n : Nat}
    (wraps : UInt16.ofNat (n + 1) = 0) :
    (EditScript.kept (diffLinesLcs (List.replicate (n + 1) item)
      (List.replicate (n + 1) item ++ [last]))).length ≤ n := by
  obtain ⟨olds, oldLines⟩ : ∃ olds, olds = List.replicate (n + 1) item :=
    ⟨_, rfl⟩
  rw [← oldLines]
  have oldSize : olds.length = n + 1 := by
    rw [oldLines, List.length_replicate]
  have size : (olds ++ [last]).length = n + 2 := by
    rw [List.length_append, oldSize]
    rfl
  have cell : (fillTable olds (olds ++ [last])).getD
      ((n + 1) * ((olds ++ [last]).length + 1) + (n + 1)) 0 =
        cellValue olds (olds ++ [last]) (n + 1) (n + 1) :=
    fillTable_cell oldSize.ge (by rw [size]; exact Nat.le_succ _)
  have zero : cellValue olds (olds ++ [last]) (n + 1) (n + 1) = 0 := by
    rw [oldLines, cellValue_diagonal item last le_rfl]
    exact wraps
  have reversed : olds.reverse = item :: List.replicate n item := by
    rw [oldLines, List.reverse_replicate, List.replicate_succ]
  have newReversed : (olds ++ [last]).reverse =
      last :: item :: List.replicate n item := by
    rw [List.reverse_append, reversed]
    rfl
  have first : diffLinesLcs olds (olds ++ [last]) =
      backtrack (fillTable olds (olds ++ [last])) ((olds ++ [last]).length + 1)
        (List.replicate n item) (last :: item :: List.replicate n item)
        [.delete item] := by
    rw [diffLinesLcs, reversed, newReversed, backtrack, if_neg different]
    apply if_pos
    have left : (List.replicate n item).length + 1 = n + 1 := by
      rw [List.length_replicate]
    have right : (item :: List.replicate n item).length = n + 1 := by
      rw [List.length_cons, List.length_replicate]
    rw [left, right, cell, zero]
    exact UInt16.zero_le
  rw [first]
  refine (length_kept_backtrack_le _ _ _ _ _).trans ?_
  rw [List.length_replicate]
  rfl

theorem diffLinesLcs_not_minimal (different : item ≠ last) {n : Nat}
    (wraps : UInt16.ofNat (n + 1) = 0) :
    ∃ oldLines newLines common : List Line,
      common.Sublist oldLines ∧ common.Sublist newLines ∧
      (EditScript.kept (diffLinesLcs oldLines newLines)).length <
        common.length := by
  refine ⟨List.replicate (n + 1) item, List.replicate (n + 1) item ++ [last],
    List.replicate (n + 1) item, List.Sublist.refl _,
    List.sublist_append_left _ _, ?_⟩
  rw [List.length_replicate]
  exact Nat.lt_succ_of_le (diffLinesLcs_overflow different wraps)

end Overflow

end Takos.Diffs
