import Takos.Foundation.LikePatterns
import Takos.Foundation.SlashPaths

/-!
# Paths of stored files

The checks of names and paths, and the pattern that selects the rows under a
folder.
-/

namespace Takos.SpaceStorage

open Takos.Foundation Takos.Foundation.SlashPath

inductive StorageErrorCode where
  | notFound
  | conflict
  | validation
  | storageError
  | tooLarge
  deriving DecidableEq

structure StorageError where
  message : String
  code : StorageErrorCode
  deriving DecidableEq

def MAX_PATH_LENGTH : Nat := 1024

def MAX_PATH_SEGMENT_LENGTH : Nat := 255

def validatePathSegment (name : Text) : Bool :=
  if name = [] || name = ['.'] || name = ['.', '.'] then false
  else if '/' ∈ name then false
  else if '%' ∈ name || '\\' ∈ name then false
  else decide (name.size ≤ MAX_PATH_SEGMENT_LENGTH)

/-- `path.replace(/\/+/g, "/")`. -/
def collapseSlashes : Text → Text
  | [] => []
  | [char] => [char]
  | char :: next :: rest =>
    if char = '/' ∧ next = '/' then collapseSlashes (next :: rest)
    else char :: collapseSlashes (next :: rest)

/-- `path.replace(/\/+$/, "")`. -/
def dropLastSlashes (path : Text) : Text := path.rdropWhile (· = '/')

def normalizePath (path : Text) : Text :=
  let normalized := dropLastSlashes (collapseSlashes path)
  if normalized.startsWith ['/'] then normalized else '/' :: normalized

def validateFullPath (path : Text) : Except StorageError Unit :=
  if path.size > MAX_PATH_LENGTH then
    .error ⟨"Path too long (max 1024 characters)", .validation⟩
  else if (parts path).any (fun segment => segment = ['.'] ||
      segment = ['.', '.']) then
    .error ⟨"Invalid path: path traversal not allowed", .validation⟩
  else .ok ()

def getParentPath (path : Text) : Text :=
  let front := ((normalizePath path).rdropWhile (· ≠ '/')).dropLast
  if front = [] then ['/'] else front

def buildFullPath (parentPath name : Text) : Text :=
  if parentPath = ['/'] then '/' :: name else parentPath ++ '/' :: name

/-- `value.replace(mark, "\\" + mark)` at every place. -/
def escapeMark (mark : Char) (value : Text) : Text :=
  value.flatMap fun char => if char = mark then ['\\', mark] else [char]

def escapeSqlLike (value : Text) : Text :=
  escapeMark '_' (escapeMark '%' (escapeMark '\\' value))

def buildDescendantPathPattern (path : Text) : Text :=
  escapeSqlLike (path ++ ['/']) ++ ['%']

def ensureValidStorageName (name : Text) (errorMessage : String) :
    Except StorageError Text :=
  if validatePathSegment name then .ok name
  else .error ⟨errorMessage, .validation⟩

structure PreparedStorageChildPath where
  parentPath : Text
  fullPath : Text

def prepareStorageChildPath (name : Text) (parentPath : Option Text)
    (invalidNameMessage : String) :
    Except StorageError PreparedStorageChildPath := do
  let validatedName ← ensureValidStorageName name invalidNameMessage
  let normalizedParentPath := normalizePath (parentPath.getD ['/'])
  let fullPath := buildFullPath normalizedParentPath validatedName
  validateFullPath fullPath
  return ⟨normalizedParentPath, fullPath⟩

structure ParsedStorageFilePath where
  normalizedPath : Text
  parentPath : Text
  fileName : Text

def parseStorageFilePath (path : Text) :
    Except StorageError ParsedStorageFilePath := do
  let normalizedPath := normalizePath path
  validateFullPath normalizedPath
  match (parts normalizedPath).getLast? with
  | none => .error ⟨"Invalid file path", .validation⟩
  | some last =>
    let fileName ← ensureValidStorageName last "Invalid file name"
    return ⟨normalizedPath,
      if (parts normalizedPath).length > 1 then
        '/' :: Text.join '/' (parts normalizedPath).dropLast
      else ['/'],
      fileName⟩

variable {name : Text} {names : List Text}

theorem isName_of_valid (valid : validatePathSegment name = true) :
    IsName name := by
  unfold validatePathSegment at valid
  split at valid
  · simp at valid
  · rename_i plain
    split at valid
    · simp at valid
    · rename_i noSlash
      exact ⟨fun empty => plain (by simp [empty]), noSlash⟩

theorem collapseSlashes_slashes (rest : Text) :
    collapseSlashes ('/' :: '/' :: rest) = collapseSlashes ('/' :: rest) := by
  simp [collapseSlashes]

theorem collapseSlashes_char {char : Char} (plain : char ≠ '/')
    (rest : Text) :
    collapseSlashes (char :: rest) = char :: collapseSlashes rest := by
  cases rest with
  | nil => rfl
  | cons next rest => simp [collapseSlashes, plain]

theorem collapseSlashes_slash_char {char : Char} (plain : char ≠ '/')
    (rest : Text) :
    collapseSlashes ('/' :: char :: rest) =
      '/' :: collapseSlashes (char :: rest) := by
  simp [collapseSlashes, plain]

theorem collapseSlashes_clean_append (clean : '/' ∉ name) (rest : Text) :
    collapseSlashes (name ++ rest) = name ++ collapseSlashes rest := by
  induction name with
  | nil => rfl
  | cons char name ih =>
      simp only [List.mem_cons, not_or] at clean
      rw [List.cons_append, collapseSlashes_char (Ne.symm clean.1),
        ih clean.2, List.cons_append]

theorem collapseSlashes_slash_name (isName : IsName name) (rest : Text) :
    collapseSlashes ('/' :: (name ++ rest)) =
      '/' :: (name ++ collapseSlashes rest) := by
  cases name with
  | nil => exact absurd rfl isName.nonempty
  | cons char name =>
      have clean := isName.noSlash
      simp only [List.mem_cons, not_or] at clean
      rw [List.cons_append, collapseSlashes_slash_char (Ne.symm clean.1),
        ← List.cons_append, collapseSlashes_clean_append isName.noSlash]

theorem dropLastSlashes_append {front : Text}
    (kept : dropLastSlashes front = front) (rest : Text) :
    dropLastSlashes (front ++ rest) = front ++ dropLastSlashes rest := by
  induction rest using List.reverseRecOn with
  | nil => simpa [dropLastSlashes] using kept
  | append_singleton rest last ih =>
      simp only [dropLastSlashes] at ih ⊢
      rw [← List.append_assoc, List.rdropWhile_concat, List.rdropWhile_concat,
        ih]
      split
      · rfl
      · simp

theorem dropLastSlashes_name (isName : IsName name) :
    dropLastSlashes name = name := by
  rw [dropLastSlashes, List.rdropWhile_eq_self_iff]
  intro nonempty slash
  have last := List.getLast_mem nonempty
  exact isName.noSlash (of_decide_eq_true slash ▸ last)

theorem dropLastSlashes_slash_name (isName : IsName name) :
    dropLastSlashes ('/' :: name) = '/' :: name := by
  have kept := dropLastSlashes_name isName
  rw [dropLastSlashes, List.rdropWhile_eq_self_iff] at kept ⊢
  intro nonempty
  rw [List.getLast_cons isName.nonempty]
  exact kept isName.nonempty

theorem dropLastSlashes_collapseSlashes (rest : Text) :
    dropLastSlashes (collapseSlashes ('/' :: rest)) = pathOf (parts rest) := by
  induction length : rest.length using Nat.strong_induction_on
    generalizing rest with
  | h size ih =>
      rcases word_cases rest with rfl | ⟨tail, rfl⟩ | isName |
        ⟨name, tail, isName, rfl⟩
      · simp [collapseSlashes, dropLastSlashes]
      · rw [collapseSlashes_slashes, parts_slash]
        exact ih tail.length (by simp [← length]) tail rfl
      · have alone := collapseSlashes_slash_name isName []
        rw [List.append_nil] at alone
        rw [alone, parts_name isName]
        simpa [collapseSlashes] using dropLastSlashes_slash_name isName
      · have shorter := ih tail.length (by simp [← length]; omega) tail rfl
        rw [collapseSlashes_slash_name isName, parts_name_slash isName,
          ← List.cons_append,
          dropLastSlashes_append (dropLastSlashes_slash_name isName),
          shorter, pathOf_cons, List.cons_append]

/-- The path with the given names, a single slash when there is none. -/
def rootedPath (names : List Text) : Text :=
  if names = [] then ['/'] else pathOf names

theorem startsWith_pathOf (nonempty : names ≠ []) :
    Text.startsWith (pathOf names) ['/'] = true := by
  cases names with
  | nil => exact absurd rfl nonempty
  | cons name names => simp [Text.startsWith]

theorem normalizePath_eq (path : Text) :
    normalizePath path = rootedPath (parts path) := by
  have slashed : ∀ rest : Text, normalizePath ('/' :: rest) =
      rootedPath (parts rest) := by
    intro rest
    unfold normalizePath rootedPath
    rw [dropLastSlashes_collapseSlashes]
    by_cases empty : parts rest = []
    · simp [empty, Text.startsWith]
    · simp [empty, startsWith_pathOf empty]
  have named : ∀ name rest : Text, IsName name →
      normalizePath (name ++ rest) =
        '/' :: (name ++ dropLastSlashes (collapseSlashes rest)) := by
    intro name rest isName
    unfold normalizePath
    rw [collapseSlashes_clean_append isName.noSlash,
      dropLastSlashes_append (dropLastSlashes_name isName)]
    have unslashed : Text.startsWith
        (name ++ dropLastSlashes (collapseSlashes rest)) ['/'] = false := by
      have clean := isName.noSlash
      cases name with
      | nil => exact absurd rfl isName.nonempty
      | cons char name =>
          simp only [List.mem_cons, not_or] at clean
          simp [Text.startsWith, List.isPrefixOf, clean.1]
    simp [unslashed]
  rcases word_cases path with rfl | ⟨rest, rfl⟩ | isName |
    ⟨name, rest, isName, rfl⟩
  · rfl
  · rw [slashed, parts_slash]
  · have alone := named path [] isName
    rw [List.append_nil] at alone
    rw [alone, parts_name isName]
    simp [rootedPath, collapseSlashes, dropLastSlashes]
  · rw [named name ('/' :: rest) isName, dropLastSlashes_collapseSlashes,
      parts_name_slash isName]
    simp [rootedPath]

theorem rootedPath_of_nonempty (nonempty : names ≠ []) :
    rootedPath names = pathOf names := by
  simp [rootedPath, nonempty]

theorem parts_rootedPath (areNames : ∀ name ∈ names, IsName name) :
    parts (rootedPath names) = names := by
  unfold rootedPath
  split
  · rename_i empty
    simp [empty]
  · exact parts_pathOf areNames

theorem normalizePath_idem (path : Text) :
    normalizePath (normalizePath path) = normalizePath path := by
  rw [normalizePath_eq, normalizePath_eq,
    parts_rootedPath fun _ member => isName_of_mem_parts member]

theorem pathOf_ne_slash (areNames : ∀ name ∈ names, IsName name) :
    pathOf names ≠ ['/'] := by
  intro single
  have read := parts_pathOf areNames
  rw [single, parts_slash, parts_nil] at read
  rw [← read] at single
  simp at single

theorem buildFullPath_rootedPath (areNames : ∀ name ∈ names, IsName name)
    (name : Text) :
    buildFullPath (rootedPath names) name = pathOf (names ++ [name]) := by
  unfold buildFullPath rootedPath
  by_cases empty : names = []
  · simp [empty]
  · simp [empty, pathOf_ne_slash areNames]

theorem rdropWhile_last_name (front : Text) (clean : '/' ∉ name) :
    List.rdropWhile (· ≠ '/') (front ++ '/' :: name) = front ++ ['/'] := by
  induction name using List.reverseRecOn with
  | nil => simp
  | append_singleton name last ih =>
      simp only [List.mem_append, List.mem_singleton, not_or] at clean
      rw [← List.cons_append, ← List.append_assoc,
        List.rdropWhile_concat_pos _ _ _ (by simpa using Ne.symm clean.2)]
      exact ih clean.1

theorem normalizePath_pathOf (areNames : ∀ name ∈ names, IsName name)
    (nonempty : names ≠ []) : normalizePath (pathOf names) = pathOf names := by
  rw [normalizePath_eq, parts_pathOf areNames, rootedPath_of_nonempty nonempty]

theorem getParentPath_pathOf (areNames : ∀ other ∈ names, IsName other)
    (isName : IsName name) :
    getParentPath (pathOf (names ++ [name])) = rootedPath names := by
  have normal : normalizePath (pathOf (names ++ [name])) =
      pathOf names ++ '/' :: name := by
    rw [normalizePath_pathOf]
    · simp
    · intro other member
      rcases List.mem_append.mp member with member | member
      · exact areNames other member
      · exact List.mem_singleton.mp member ▸ isName
    · simp
  unfold getParentPath rootedPath
  rw [normal, rdropWhile_last_name _ isName.noSlash, List.dropLast_concat]
  simp [pathOf_eq_nil]

theorem escapeMark_append (mark : Char) (front back : Text) :
    escapeMark mark (front ++ back) =
      escapeMark mark front ++ escapeMark mark back :=
  List.flatMap_append

theorem escapeSqlLike_append (front back : Text) :
    escapeSqlLike (front ++ back) =
      escapeSqlLike front ++ escapeSqlLike back := by
  simp only [escapeSqlLike, escapeMark_append]

open LikePattern in
theorem signs_escapeSqlLike (value rest : Text) :
    signs '\\' (escapeSqlLike value ++ rest) =
      value.map .literal ++ signs '\\' rest := by
  induction value with
  | nil => rfl
  | cons char value ih =>
      have shape : escapeSqlLike (char :: value) ++ rest =
          escapeSqlLike [char] ++ (escapeSqlLike value ++ rest) := by
        rw [← List.append_assoc, ← escapeSqlLike_append, List.singleton_append]
      rw [shape, List.map_cons, List.cons_append, ← ih]
      generalize escapeSqlLike value ++ rest = tail
      by_cases marked : char = '\\' ∨ char = '%' ∨ char = '_'
      · have escaped : escapeSqlLike [char] = ['\\', char] := by
          rcases marked with rfl | rfl | rfl <;> rfl
        rw [escaped]
        exact signs_escaped '\\' char tail
      · simp only [not_or] at marked
        have plain : escapeSqlLike [char] = [char] := by
          simp [escapeSqlLike, escapeMark, marked]
        rw [plain, List.singleton_append, signs_plain marked.1]
        simp [plainSign, marked]

/-- The pattern selects the paths that start with the path of the folder and a
slash, up to the case of ASCII letters. -/
theorem like_descendantPattern (path folderPath : Text) :
    LikePattern.like '\\' path (buildDescendantPathPattern folderPath) = true ↔
      SamePrefix (folderPath ++ ['/']) path := by
  unfold LikePattern.like buildDescendantPathPattern
  rw [signs_escapeSqlLike]
  exact LikePattern.matchSigns_literals _ _

theorem ensureValidStorageName_ok {name valid : Text} {message : String}
    (ok : ensureValidStorageName name message = .ok valid) :
    valid = name ∧ validatePathSegment name = true := by
  unfold ensureValidStorageName at ok
  split at ok
  · rename_i accepted
    exact ⟨(Except.ok.inj ok).symm, accepted⟩
  · cases ok

theorem prepareStorageChildPath_ok {parentPath : Option Text}
    {message : String} {prepared : PreparedStorageChildPath}
    (ok : prepareStorageChildPath name parentPath message = .ok prepared) :
    validatePathSegment name = true ∧
      prepared.parentPath = normalizePath (parentPath.getD ['/']) ∧
      prepared.fullPath = buildFullPath prepared.parentPath name := by
  simp only [prepareStorageChildPath, bind, Except.bind] at ok
  split at ok
  · cases ok
  · rename_i valid checked
    obtain ⟨rfl, accepted⟩ := ensureValidStorageName_ok checked
    split at ok
    · cases ok
    · cases ok
      exact ⟨accepted, rfl, rfl⟩

theorem slash_join (nonempty : names ≠ []) :
    '/' :: Text.join '/' names = pathOf names := by
  induction names with
  | nil => exact absurd rfl nonempty
  | cons name names ih =>
      cases names with
      | nil => simp
      | cons next names =>
          rw [Text.join_cons_cons, ih (by simp)]
          simp

theorem parseStorageFilePath_ok {path : Text} {parsed : ParsedStorageFilePath}
    (ok : parseStorageFilePath path = .ok parsed) :
    validatePathSegment parsed.fileName = true ∧
      normalizePath parsed.parentPath = parsed.parentPath ∧
      parsed.normalizedPath =
        buildFullPath parsed.parentPath parsed.fileName := by
  have areNames : ∀ name ∈ parts path, IsName name :=
    fun _ member => isName_of_mem_parts member
  simp only [parseStorageFilePath, bind, Except.bind, normalizePath_eq,
    parts_rootedPath areNames] at ok
  split at ok
  · cases ok
  · split at ok
    · cases ok
    · rename_i last found
      split at ok
      · cases ok
      · rename_i fileName checked
        obtain ⟨rfl, accepted⟩ := ensureValidStorageName_ok checked
        cases ok
        have shape : parts path = (parts path).dropLast ++ [fileName] :=
          (List.dropLast_append_getLast? fileName found).symm
        have frontNames : ∀ name ∈ (parts path).dropLast, IsName name :=
          fun name member => areNames name (List.dropLast_subset _ member)
        have parent : (if (parts path).length > 1 then
              '/' :: Text.join '/' (parts path).dropLast
            else ['/']) = rootedPath (parts path).dropLast := by
          have length := congrArg List.length shape
          simp only [List.length_append, List.length_singleton] at length
          unfold rootedPath
          by_cases empty : (parts path).dropLast = []
          · rw [empty] at length
            simp [length, empty]
          · have positive := List.length_pos_iff.mpr empty
            rw [if_pos (by omega), if_neg empty, slash_join empty]
        refine ⟨accepted, ?_, ?_⟩
        · dsimp only
          rw [parent, normalizePath_eq, parts_rootedPath frontNames]
        · dsimp only
          rw [parent, buildFullPath_rootedPath frontNames, ← shape]
          apply rootedPath_of_nonempty
          intro empty
          rw [empty] at found
          cases found

end Takos.SpaceStorage
