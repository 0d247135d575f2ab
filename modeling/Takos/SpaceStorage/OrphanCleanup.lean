import Takos.SpaceStorage.OrphanRuns

/-!
# What the cleanup removes

In every history whose statements are careful, no statement of a cleanup removes
a completed record.  A file created with empty content looks like an upload
that never came.
-/

namespace Takos.SpaceStorage

open Takos.Foundation Takos.Foundation.Program StorageTable

theorem UploadKept.keeps {state : UploadState} (kept : UploadKept state)
    {spaceId : Text} {orphan : Orphan} (waiting : orphan.id ∉ state.completed)
    (typed : TypeKept state.store orphan.id .file) {row : StorageFile}
    (member : row ∈ state.store.table) (completed : row.id ∈ state.completed) :
    row ∈ state.store.table.deleteRow spaceId orphan.id := by
  have children : ∀ other ∈ state.store.table,
      other.isItem spaceId orphan.id = false →
      ∀ id, other.parentId = some id → ∃ parent ∈ state.store.table,
        parent.isItem spaceId orphan.id = false ∧ parent.id = id := by
    intro other otherMember _ id child
    obtain ⟨parent, parentMember, same, _, isFolder⟩ :=
      kept.keys.parents other otherMember id child
    refine ⟨parent, parentMember, ?_, same⟩
    by_contra item
    have isOrphan := (isItem_iff.mp (by simpa using item)).1
    have isFile := typed.same parent parentMember isOrphan
    rw [isFolder] at isFile
    cases isFile
  unfold deleteRow
  rw [deleteRows_eq_filter children, List.mem_filter]
  refine ⟨member, ?_⟩
  have other : row.id ≠ orphan.id := by
    intro same
    exact waiting (same ▸ completed)
  simp [StorageFile.isItem, other]

/-- No statement of a cleanup removes a record whose content was stored or
whose upload was confirmed. -/
theorem cleanup_keeps_completed (maxFileSize : Nat)
    (reached : Config UploadState UploadCall UploadAnswer)
    (run : Run (uploadProgram maxFileSize) Careful noUploads reached)
    (call : UploadCall) (member : call ∈ reached.calls)
    (cleans : call.cleans) :
    ∀ row ∈ reached.shared.store.table, row.id ∈ reached.shared.completed →
      row ∈ (call.statement maxFileSize reached.shared).1.store.table := by
  intro row rowMember completed
  obtain ⟨kept, safe, _⟩ := uploads_of_run run
  have callSafe := safe call member
  cases call with
  | selecting spaceId maxAge now cleaned =>
      simp only [UploadCall.statement]
      split
      · exact rowMember
      · exact rowMember
  | deletingOrphans spaceId maxAge now cleaned batch left =>
      cases left with
      | nil => exact rowMember
      | cons orphan left =>
          obtain ⟨waiting, typed⟩ := callSafe orphan List.mem_cons_self
          exact kept.keeps waiting typed rowMember completed
  | deletingObjects spaceId maxAge now cleaned batch => exact rowMember
  | _ => exact cleans.elim

namespace OneOrphan

def stored : StorageFile :=
  ⟨['1'], ['s'], none, ['a'], ['/', 'a'], .file, 3,
    some (buildR2Key ['s'] ['1']), 5, 5⟩

def pending : StorageFile :=
  ⟨['2'], ['s'], none, ['b'], ['/', 'b'], .file, 0,
    some (buildR2Key ['s'] ['2']), 6, 6⟩

def objects : List (Text × Nat) := [(buildR2Key ['s'] ['1'], 3)]

def both : UploadState :=
  ⟨⟨[stored, pending], [['2'], ['1']]⟩, objects, [['1']]⟩

def orphan : Orphan := ⟨['2'], some (buildR2Key ['s'] ['2'])⟩

def Reaches (state : UploadState) (calls : List UploadCall)
    (answers : List UploadAnswer) : Prop :=
  Run (uploadProgram 10) Careful noUploads ⟨state, calls, answers⟩

def answers : List UploadAnswer :=
  [.tree (.item (.ok pending)), .tree (.item (.ok stored))]

/-- The cleanup deletes the pending record and keeps the stored one. -/
theorem stored_kept :
    stored ∈ (UploadCall.statement 10
      (.deletingOrphans ['s'] 10 100 0 [orphan] [orphan])
        both).1.store.table := by
  have nothing : Reaches noUploads.shared [] [] := .here
  have selected : Reaches both
      [.deletingOrphans ['s'] 10 100 0 [orphan] [orphan]] answers :=
    nothing.play [.start (.storing ['s'] ['/', 'a'] 3 ['1'] 5), .run 0, .run 0,
      .run 0, .run 0,
      .start (.tree (.creating ['s'] (.createFileRecord ['b'] none 0) ['2'] 6)),
      .run 0, .run 0, .run 0, .start (.selecting ['s'] 10 100 0), .run 0] (by
        repeat' first
          | exact trivial
          | exact .createFileWithContent _ _ _ _ _
          | exact .createFileRecord _ _ _ _ _ _
          | exact .cleanupOrphanedUploads _ _ _
          | exact (by decide : (['2'] : Text) ∉ [['1']])
          | exact (by decide : (['1'] : Text) ∉ [])
          | exact fun _ => by decide
          | apply And.intro)
  exact cleanup_keeps_completed 10 _ selected
    (.deletingOrphans ['s'] 10 100 0 [orphan] [orphan])
    (List.mem_singleton_self _) trivial stored (by decide) (by decide)

end OneOrphan

/-- New ids, and nothing else, are assumed. -/
def FreshUploads (state : UploadState) :
    Event UploadCall → List UploadCall → Prop
  | .run (.tree call), _ => FreshIds state.store (.run call) []
  | .run (.insertingNew row), _ => row.id ∉ state.store.issued
  | _, _ => True

namespace EmptyContent

def empty : StorageFile :=
  ⟨['1'], ['s'], none, ['a'], ['/', 'a'], .file, 0,
    some (buildR2Key ['s'] ['1']), 5, 5⟩

def objects : List (Text × Nat) := [(buildR2Key ['s'] ['1'], 0)]

def state : UploadState := ⟨⟨[empty], [['1']]⟩, objects, [['1']]⟩

def orphan : Orphan := ⟨['1'], some (buildR2Key ['s'] ['1'])⟩

def Reaches (state : UploadState) (calls : List UploadCall)
    (answers : List UploadAnswer) : Prop :=
  Run (uploadProgram 10) FreshUploads noUploads ⟨state, calls, answers⟩

/-- A file is created with empty content, and a cleanup removes it. -/
theorem empty_removed :
    ∃ reached, Run (uploadProgram 10) FreshUploads noUploads reached ∧
      ∃ call ∈ reached.calls, call.cleans ∧
        ∃ row ∈ reached.shared.store.table,
          row.id ∈ reached.shared.completed ∧
            row ∉ (call.statement 10 reached.shared).1.store.table := by
  have nothing : Reaches noUploads.shared [] [] := .here
  have selected : Reaches state
      [.deletingOrphans ['s'] 10 100 0 [orphan] [orphan]]
      [.tree (.item (.ok empty))] :=
    nothing.play [.start (.storing ['s'] ['/', 'a'] 0 ['1'] 5), .run 0, .run 0,
      .run 0, .run 0, .start (.selecting ['s'] 10 100 0), .run 0] (by
        repeat' first
          | exact trivial
          | exact .createFileWithContent _ _ _ _ _
          | exact .cleanupOrphanedUploads _ _ _
          | exact (by decide : (['1'] : Text) ∉ [])
          | apply And.intro)
  exact ⟨_, selected, _, List.mem_singleton_self _, trivial, empty, by decide,
    by decide, by decide⟩

end EmptyContent

end Takos.SpaceStorage
