import Takos.SpaceStorage.StorageSubtrees
import Takos.SpaceStorage.StorageTreeRuns

/-!
# Trees in all runs

The indexes hold in every run, and the whole tree in the runs in which folders
move undisturbed.  Two folders that move into each other at once end in a
cycle.
-/

namespace Takos.SpaceStorage

open Takos.Foundation Takos.Foundation.Program

/-- Stored files before any call. -/
def idle (table : StorageTable) : Config StoreState StorageCall StorageAnswer :=
  ⟨⟨table, table.map StorageFile.id⟩, [], []⟩

/-- Under any interleaving every parent is a folder of the space and no two rows
share a path.  When folders move undisturbed, every path is made of the path of
the parent and the name, and no row lies under itself, whenever no folder is
between the two statements of its move. -/
theorem storage_trees (maxFileSize : Nat) (table : StorageTable)
    (tree : StoredTree table) :
    (∀ reached, Run (storageProgram maxFileSize) FreshIds (idle table)
        reached →
      TableKeys reached.shared.table) ∧
    (∀ reached, Run (storageProgram maxFileSize) UndisturbedRun (idle table)
        reached →
      (∀ call ∈ reached.calls, ¬ call.rebases) →
        StoredTree reached.shared.table ∧
          ∀ row ∈ reached.shared.table,
            ¬ Descends reached.shared.table row.id row) := by
  have keys : StateKeys (idle table).shared := by
    refine ⟨tree.toTableKeys, ?_⟩
    intro row member
    exact List.mem_map_of_mem member
  refine ⟨fun reached run => (keys_of_run run keys rfl).1.toTableKeys, ?_⟩
  intro reached run settled
  rcases (tree_of_run run keys tree rfl).tree with whole |
    ⟨call, member, rebases⟩
  · exact ⟨whole, fun row member => whole.not_descends_self member⟩
  · exact absurd rebases (settled call member)

namespace OneRename

open OneFolder (photos file)

def inside : StorageFile := file '2' '1' ['/', 'p', '/', 'x'] ['x']

def place : Place := ⟨['q'], ['/', 'q'], none⟩

def renamed : StorageTable := [photos.placedAt place 9, inside]

def rebased : StorageTable :=
  [photos.placedAt place 9, inside.withPath ['/', 'q', '/', 'x'] 9]

theorem alone (call : StorageCall) : Undisturbed call [] :=
  ⟨fun _ => nofun, fun _ => nofun⟩

/-- A folder with one file is renamed. -/
theorem rename_tree : StoredTree rebased := by
  have nothing : Run (storageProgram 10) UndisturbedRun
      (idle [photos, inside]) (idle [photos, inside]) := .here
  have written : Run (storageProgram 10) UndisturbedRun
      (idle [photos, inside]) ⟨⟨rebased, [['1'], ['2']]⟩,
        [.loading ['s'] ['1']], []⟩ :=
    nothing.play [.start (.relocating ['s'] ['1'] (.rename ['q']) 9), .run 0,
      .run 0, .run 0] (by
        repeat' first
          | exact trivial
          | exact Or.inr (Or.inl ⟨_, _, _, _, rfl⟩)
          | exact alone _
          | exact (by decide : NoCaseVariant ['s'] photos.path renamed)
          | exact fun _ => by decide
          | apply And.intro)
  exact ((storage_trees 10 [photos, inside] (by decide)).2 _ written
    (by simp [StorageCall.rebases])).1

end OneRename

namespace CrossingMoves

open OneFolder (folder)

def small : StorageFile := folder '1' ['/', 'a'] ['a']

def large : StorageFile := folder '2' ['/', 'b'] ['b']

def toLarge : Place := ⟨['a'], ['/', 'b', '/', 'a'], some ['2']⟩

def toSmall : Place := ⟨['b'], ['/', 'a', '/', 'b'], some ['1']⟩

def placed : StorageTable := [small.placedAt toLarge 8, large.placedAt toSmall 9]

/-- The first move has rewritten the path of the second folder. -/
def rebased : StorageTable :=
  [small.placedAt toLarge 8,
    (large.placedAt toSmall 9).withPath ['/', 'b', '/', 'a', '/', 'b'] 8]

/-- The second move has rewritten both paths. -/
def final : StorageTable :=
  [(small.placedAt toLarge 8).withPath ['/', 'a', '/', 'b', '/', 'a'] 9,
    (large.placedAt toSmall 9).withPath
      ['/', 'a', '/', 'b', '/', 'a', '/', 'b'] 9]

def initial : StorageTable := [small, large]

def Reaches (table : StorageTable) (calls : List StorageCall)
    (answers : List StorageAnswer) : Prop :=
  Run (storageProgram 10) FreshIds (idle initial)
    ⟨⟨table, [['1'], ['2']]⟩, calls, answers⟩

/-- Two folders move into each other: both calls succeed, each folder ends
under the other, and one path is not the path of the parent and the name. -/
theorem moves_cross :
    ∃ reached, Run (storageProgram 10) FreshIds (idle [small, large]) reached ∧
      reached.calls = [] ∧ reached.shared.table = final ∧
      (∀ row ∈ final, Descends final row.id row) ∧
      ∃ row ∈ final, ∃ parent ∈ final, row.parentId = some parent.id ∧
        row.path ≠ parent.path ++ '/' :: row.name := by
  have nothing : Reaches initial [] [] := .here
  -- both moves check their new parents before either of them is written
  have run := nothing.play [
    .start (.relocating ['s'] ['1'] (.move ['/', 'b']) 8), .run 0, .run 0,
    .start (.relocating ['s'] ['2'] (.move ['/', 'a']) 9), .run 0, .run 0,
    .run 1, .run 0, .run 1, .run 0, .run 1, .run 0] (by
      repeat' first
        | exact trivial
        | exact Or.inr (Or.inl ⟨_, _, _, _, rfl⟩)
        | apply And.intro)
  refine ⟨_, run, by decide, by decide, ?_, by decide⟩
  have one : final[0] ∈ final := by decide
  have two : final[1] ∈ final := by decide
  have firstUnder : Descends final ['2'] final[0] := .child one rfl
  have secondUnder : Descends final ['1'] final[1] := .child two rfl
  intro row member
  rcases List.mem_cons.mp member with rfl | member
  · exact .deeper secondUnder one rfl
  · rw [List.mem_singleton.mp member]
    exact .deeper firstUnder two rfl

end CrossingMoves

end Takos.SpaceStorage
