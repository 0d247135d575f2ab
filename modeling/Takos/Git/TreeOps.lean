import Takos.Foundation.OrderedMap
import Takos.Foundation.PathTree
import Takos.Git.Objects

/-!
# Tree operations

Flattening a stored tree into its files, building a tree from files, and
applying a list of changes by doing both.
-/

namespace Takos.Git

open Takos.Foundation

def DEFAULT_MAX_FLATTEN_DEPTH : Nat := 50
def DEFAULT_MAX_FLATTEN_ENTRIES : Nat := 100000
def MAX_GIT_PATH_LENGTH : Nat := 4096

def hasControlChars (value : Text) : Bool :=
  value.any fun char => char.toNat ≤ 0x1f || char.toNat = 0x7f

def isValidGitPathSegment (segment : Text) : Bool :=
  !(segment.isEmpty || segment = ['.'] || segment = ['.', '.'] ||
    segment.contains '\x00' || hasControlChars segment)

def isValidGitPath (path : Text) : Bool :=
  !(path.isEmpty || MAX_GIT_PATH_LENGTH < Text.size path) &&
    !(path.contains '\x00' || hasControlChars path) &&
    !(Text.startsWith path ['/'] || Text.endsWith path ['/'] ||
      path.contains '\\' || Text.includes path ['/', '/']) &&
    (Text.split '/' path).all isValidGitPathSegment

inductive ChangeOperation where
  | add
  | modify
  | delete
  deriving DecidableEq

def ChangeOperation.label : ChangeOperation → String
  | .add => "add"
  | .modify => "modify"
  | .delete => "delete"

inductive TreeError where
  | invalidPath (path : Text)
  | pathConflict (path : Text)
  | depthLimit (maxDepth : Nat)
  | entryLimit (maxEntries : Nat)
  | symlink (fullPath : Text)
  | shaRequired (operation : ChangeOperation)
  deriving DecidableEq

def TreeError.message : TreeError → String
  | .invalidPath path => "Invalid git path: " ++ String.ofList path
  | .pathConflict path => "Path conflict at " ++ String.ofList path
  | .depthLimit maxDepth =>
    "Tree flatten depth limit exceeded (max " ++ toString maxDepth ++ ")"
  | .entryLimit maxEntries =>
    "Tree flatten entry limit exceeded (max " ++ toString maxEntries ++ ")"
  | .symlink fullPath =>
    "Symlink blob entries are not supported: " ++ String.ofList fullPath
  | .shaRequired operation =>
    "SHA required for " ++ operation.label ++ " operation"

def assertValidGitPath (path : Text) : Except TreeError Text :=
  let normalized := Text.trim path
  if isValidGitPath normalized then .ok normalized
  else .error (.invalidPath path)

/-- A file of a flattened tree.  As an input of `buildTreeFromPaths` an empty
mode stands for an absent one. -/
structure FileEntry (Sha : Type) where
  path : Text
  sha : Sha
  mode : Text
  deriving DecidableEq

structure FlattenOptions where
  maxDepth : Nat
  maxEntries : Nat
  skipSymlinks : Bool

def defaultFlattenOptions : FlattenOptions :=
  ⟨DEFAULT_MAX_FLATTEN_DEPTH, DEFAULT_MAX_FLATTEN_ENTRIES, false⟩

/-- `currentBasePath ? currentBasePath + "/" + entry.name : entry.name`. -/
def childPath (basePath name : Text) : Text :=
  if basePath.isEmpty then name else basePath ++ '/' :: name

section Store

variable {Sha : Type} [DecidableEq Sha] {ids : ObjectIds Sha}

/-- The entry loop of `walk`; `descend` is the recursive call and the number is
the shared entry counter. -/
def walkEntries (options : FlattenOptions)
    (descend : Sha → Text → Nat → Except TreeError (List (FileEntry Sha) × Nat))
    (basePath : Text) :
    List (TreeEntry Sha) → Nat → Except TreeError (List (FileEntry Sha) × Nat)
  | [], counter => .ok ([], counter)
  | entry :: rest, counter =>
    if options.maxEntries < counter + 1 then
      .error (.entryLimit options.maxEntries)
    else
      let fullPath := childPath basePath entry.name
      if isDirectoryMode entry.mode then do
        let (inside, counter) ← descend entry.sha fullPath (counter + 1)
        let (later, counter) ←
          walkEntries options descend basePath rest counter
        return (inside ++ later, counter)
      else if entry.mode = FILE_MODES.SYMLINK then
        if options.skipSymlinks then
          walkEntries options descend basePath rest (counter + 1)
        else .error (.symlink fullPath)
      else do
        let (later, counter) ←
          walkEntries options descend basePath rest (counter + 1)
        return (⟨fullPath, entry.sha, entry.mode⟩ :: later, counter)

/-- `walk`, with the levels still allowed in place of the depth.  `visited`
holds the trees on the current path. -/
def walk (bucket : ObjectStore ids) (options : FlattenOptions) :
    Nat → List Sha → Sha → Text → Nat →
      Except TreeError (List (FileEntry Sha) × Nat)
  | 0, _, _, _, _ => .error (.depthLimit options.maxDepth)
  | levels + 1, visited, currentTreeSha, currentBasePath, counter =>
    if currentTreeSha ∈ visited then .ok ([], counter)
    else
      match bucket.getTreeEntries currentTreeSha with
      | none => .ok ([], counter)
      | some entries =>
        walkEntries options
          (walk bucket options levels (currentTreeSha :: visited))
          currentBasePath entries counter

def flattenTreeWith (bucket : ObjectStore ids) (treeSha : Sha)
    (basePath : Text) (options : FlattenOptions) :
    Except TreeError (List (FileEntry Sha)) := do
  let (files, _) ←
    walk bucket options (options.maxDepth + 1) [] treeSha basePath 0
  return files

/-- `flattenTree` with its default arguments. -/
def flattenTree (bucket : ObjectStore ids) (treeSha : Sha) :
    Except TreeError (List (FileEntry Sha)) :=
  flattenTreeWith bucket treeSha [] defaultFlattenOptions

/-- The in-memory tree of `buildTreeFromPaths`. -/
abbrev TreeNode (Sha : Type) := PathTree Text (TreeEntry Sha)

/-- `file.mode || FILE_MODES.REGULAR_FILE`. -/
def modeOrRegular (mode : Text) : Text :=
  if mode.isEmpty then FILE_MODES.REGULAR_FILE else mode

def fileLeaf (parts : List Text) (file : FileEntry Sha) :
    List Text × TreeEntry Sha :=
  (parts, ⟨modeOrRegular file.mode, parts.getLastD [], file.sha⟩)

/-- The file loop of `buildTreeFromPaths`. -/
def insertFiles : List (FileEntry Sha) → TreeNode Sha →
    Except TreeError (TreeNode Sha)
  | [], root => .ok root
  | file :: rest, root => do
    let validPath ← assertValidGitPath file.path
    let leaf := fileLeaf (Text.split '/' validPath) file
    match PathTree.insert leaf.1 leaf.2 root with
    | .ok changed => insertFiles rest changed
    | .error blocking => .error (.pathConflict (Text.join '/' blocking))

/-- The entry loop of `createTreeFromNode`, writing subtrees on the way. -/
def nodeEntries : TreeNode Sha → ObjectStore ids →
    List (TreeEntry Sha) × ObjectStore ids
  | .empty, bucket => ([], bucket)
  | .file _ entry rest, bucket =>
    let (later, bucket) := nodeEntries rest bucket
    (entry :: later, bucket)
  | .dir name child rest, bucket =>
    let (inside, bucket) := nodeEntries child bucket
    let (subtreeSha, bucket) := bucket.putTree inside
    let (later, bucket) := nodeEntries rest bucket
    (⟨FILE_MODES.DIRECTORY, name, subtreeSha⟩ :: later, bucket)

def createTreeFromNode (node : TreeNode Sha) (bucket : ObjectStore ids) :
    Sha × ObjectStore ids :=
  let (entries, bucket) := nodeEntries node bucket
  bucket.putTree entries

def buildTreeFromPaths (bucket : ObjectStore ids)
    (files : List (FileEntry Sha)) :
    Except TreeError (Sha × ObjectStore ids) := do
  let root ← insertFiles files .empty
  return createTreeFromNode root bucket

/-- A change; the empty mode stands for an absent one. -/
structure TreeChange (Sha : Type) where
  path : Text
  operation : ChangeOperation
  sha : Option Sha
  mode : Text

abbrev FileMap (Sha : Type) := OrderedMap Text (FileEntry Sha)

def toFileMap (files : List (FileEntry Sha)) : FileMap Sha :=
  OrderedMap.ofList (files.map fun file => (file.path, file))

def FileMap.files (fileMap : FileMap Sha) : List (FileEntry Sha) :=
  fileMap.entries.map Prod.snd

/-- The change loop of `applyTreeChanges`. -/
def updateFileMap : List (TreeChange Sha) → FileMap Sha →
    Except TreeError (FileMap Sha)
  | [], fileMap => .ok fileMap
  | change :: rest, fileMap =>
    if change.operation = .delete then
      updateFileMap rest (fileMap.delete change.path)
    else
      match change.sha with
      | none => .error (.shaRequired change.operation)
      | some sha =>
        updateFileMap rest (fileMap.set change.path
          ⟨change.path, sha, modeOrRegular change.mode⟩)

def applyTreeChanges (bucket : ObjectStore ids) (baseTreeSha : Sha)
    (changes : List (TreeChange Sha)) :
    Except TreeError (Sha × ObjectStore ids) := do
  let files ← flattenTree bucket baseTreeSha
  let fileMap ← updateFileMap changes (toFileMap files)
  buildTreeFromPaths bucket fileMap.files

end Store

end Takos.Git
