import Mathlib.Data.List.Basic
import Mathlib.Data.List.Infix
import Kvist.Paths

/-!
# Trees of files

Directories, regular files and symbolic links, and the way the kernel goes from a path to a
location. Links are followed, and `..` leads to the directory that holds the current one, which
need not be the one that the path came through.
-/

set_option autoImplicit false

namespace Kvist.FileSystem

/-- A component of a path as the kernel reads it. A slash at the end is one more `.`. -/
inductive PathStep (Name : Type) where
  | here
  | up
  | down (name : Name)
  deriving DecidableEq, Repr

structure LinkTarget (Name : Type) where
  absolute : Bool
  steps : List (PathStep Name)
  deriving DecidableEq, Repr

inductive Node (Name : Type) where
  | directory
  | file (content : List UInt8)
  | link (target : LinkTarget Name)
  | special
  deriving DecidableEq, Repr

inductive Errno where
  | notFound
  | notDirectory
  | isDirectory
  | alreadyExists
  | tooManyLinks
  | invalidName
  | other
  deriving DecidableEq, Repr

/-- The names from the root down. -/
abbrev Location (Name : Type) := List Name

/-- What stands at each location. Only a directory holds anything. -/
structure FileTree (Name : Type) where
  legal : Name → Bool
  node : Location Name → Option (Node Name)
  root : node [] = some .directory
  held : ∀ location name, node (location ++ [name]) ≠ none → node location = some .directory
  named : ∀ location name, node (location ++ [name]) ≠ none → legal name = true

/-- Where a path leads. -/
inductive Walked (Name : Type) where
  | found (location : Location Name)
  /-- The directory has no such entry. The rest of the path was not read. -/
  | missing (directory : Location Name) (name : Name) (rest : List (PathStep Name))
  | refused (error : Errno)
  deriving DecidableEq, Repr

variable {Name : Type}

namespace FileTree

variable (tree : FileTree Name)

/-! ## Path resolution -/

def lookup (follow : Location Name → List (PathStep Name) → Walked Name)
    (next : Location Name → Walked Name) (location : Location Name) (name : Name)
    (rest : List (PathStep Name)) : Walked Name :=
  if tree.legal name then
    match tree.node (location ++ [name]) with
    | none => .missing location name rest
    | some (.link target) =>
        follow (if target.absolute then [] else location) (target.steps ++ rest)
    | some _ => next (location ++ [name])
  else .refused .invalidName

/-- One component after another, up to the first link. -/
def walkSteps (follow : Location Name → List (PathStep Name) → Walked Name) :
    Location Name → List (PathStep Name) → Walked Name
  | location, [] => .found location
  | location, step :: rest =>
      match tree.node location with
      | some .directory =>
          match step with
          | .here => walkSteps follow location rest
          | .up => walkSteps follow location.dropLast rest
          | .down name =>
              tree.lookup follow (fun child => walkSteps follow child rest) location name rest
      | _ => .refused .notDirectory

def walk : Nat → Location Name → List (PathStep Name) → Walked Name
  | 0 => tree.walkSteps fun _ _ => .refused .tooManyLinks
  | links + 1 => tree.walkSteps (walk links)

def maxLinks : Nat := 40

/-- Where an absolute path leads. -/
def resolve (path : List (PathStep Name)) : Walked Name := tree.walk maxLinks [] path

/-- The directory that an absolute path leads to. -/
def openDirectory (path : List (PathStep Name)) : Except Errno (Location Name) :=
  match tree.resolve path with
  | .found location =>
      if tree.node location matches some .directory then .ok location else .error .notDirectory
  | .missing _ _ _ => .error .notFound
  | .refused error => .error error

def lstat (directory : List (PathStep Name)) (name : Name) : Except Errno (Node Name) := do
  let location ← tree.openDirectory directory
  if tree.legal name then
    match tree.node (location ++ [name]) with
    | some entry => return entry
    | none => .error .notFound
  else .error .invalidName

/-- The entry that a path leads to. A link at its end is not followed. -/
def lstatPath (path : List (PathStep Name)) : Except Errno (Node Name) :=
  match path.getLast? with
  | some (.down name) => tree.lstat path.dropLast name
  | _ => (tree.openDirectory path).map fun _ => .directory

/-! ## Files -/

/-- The bytes of a regular file. A link to one is followed. -/
def read (path : List (PathStep Name)) : Except Errno (List UInt8) :=
  match tree.resolve path with
  | .found location =>
      match tree.node location with
      | some (.file content) => .ok content
      | some .directory => .error .isDirectory
      | _ => .error .notFound
  | .missing _ _ _ => .error .notFound
  | .refused error => .error error

section

variable [DecidableEq Name]

def put (directory : Location Name) (name : Name) (entry : Node Name)
    (isDirectory : tree.node directory = some .directory) (legal : tree.legal name = true)
    (leaf : tree.node (directory ++ [name]) ≠ some .directory) : FileTree Name where
  legal := tree.legal
  node := fun location => if location = directory ++ [name] then some entry else tree.node location
  root := by
    rw [if_neg (by simp), tree.root]
  held := by
    intro location other present
    by_cases same : location ++ [other] = directory ++ [name]
    · obtain ⟨rfl, -⟩ := List.append_inj' same rfl
      rw [if_neg (by simp), isDirectory]
    · rw [if_neg same] at present
      have holds := tree.held location other present
      rw [if_neg, holds]
      intro at_leaf
      rw [at_leaf] at holds
      exact leaf holds
  named := by
    intro location other present
    by_cases same : location ++ [other] = directory ++ [name]
    · obtain ⟨-, last⟩ := List.append_inj' same rfl
      rw [List.singleton_inj.mp last]
      exact legal
    · rw [if_neg same] at present
      exact tree.named location other present

@[simp] theorem node_put {directory : Location Name} {name : Name} {entry : Node Name}
    {isDirectory : tree.node directory = some .directory} {legal : tree.legal name = true}
    {leaf : tree.node (directory ++ [name]) ≠ some .directory} (location : Location Name) :
    (tree.put directory name entry isDirectory legal leaf).node location =
      if location = directory ++ [name] then some entry else tree.node location := rfl

/-- The tree without the entry of this name, unless a directory stands there. -/
def erase (directory : Location Name) (name : Name)
    (leaf : tree.node (directory ++ [name]) ≠ some .directory) : FileTree Name where
  legal := tree.legal
  node := fun location => if location = directory ++ [name] then none else tree.node location
  root := by
    rw [if_neg (by simp), tree.root]
  held := by
    intro location other present
    by_cases same : location ++ [other] = directory ++ [name]
    · rw [if_pos same] at present
      exact absurd rfl present
    · rw [if_neg same] at present
      have holds := tree.held location other present
      rw [if_neg, holds]
      intro at_leaf
      rw [at_leaf] at holds
      exact leaf holds
  named := by
    intro location other present
    by_cases same : location ++ [other] = directory ++ [name]
    · rw [if_pos same] at present
      exact absurd rfl present
    · rw [if_neg same] at present
      exact tree.named location other present

@[simp] theorem node_erase {directory : Location Name} {name : Name}
    {leaf : tree.node (directory ++ [name]) ≠ some .directory} (location : Location Name) :
    (tree.erase directory name leaf).node location =
      if location = directory ++ [name] then none else tree.node location := rfl

/-- The entry is put in the directory that the path leads to. No directory is replaced, and a fresh
entry replaces nothing. -/
def putEntry (path : List (PathStep Name)) (name : Name) (entry : Node Name) (fresh : Bool) :
    Except Errno (FileTree Name) :=
  match tree.openDirectory path with
  | .error error => .error error
  | .ok directory =>
      if isDirectory : tree.node directory = some .directory then
        if legal : tree.legal name = true then
          if leaf : tree.node (directory ++ [name]) ≠ some .directory then
            if fresh && (tree.node (directory ++ [name])).isSome then .error .alreadyExists
            else .ok (tree.put directory name entry isDirectory legal leaf)
          else .error (if fresh then .alreadyExists else .isDirectory)
        else .error .invalidName
      else .error .notDirectory

def writeFile (path : List (PathStep Name)) (name : Name) (content : List UInt8) (fresh : Bool) :
    Except Errno (FileTree Name) :=
  tree.putEntry path name (.file content) fresh

def createDirectory (path : List (PathStep Name)) (name : Name) : Except Errno (FileTree Name) :=
  tree.putEntry path name .directory true

def removeFile (path : List (PathStep Name)) (name : Name) : Except Errno (FileTree Name) :=
  match tree.openDirectory path with
  | .error error => .error error
  | .ok directory =>
      if tree.legal name then
        if tree.node (directory ++ [name]) = none then .error .notFound
        else if leaf : tree.node (directory ++ [name]) ≠ some .directory then
          .ok (tree.erase directory name leaf)
        else .error .isDirectory
      else .error .invalidName

end

/-! ## Trees from their entries -/

section

variable [DecidableEq Name]

def entryAt (entries : List (Location Name × Node Name)) (location : Location Name) :
    Option (Node Name) :=
  if location = [] then some .directory
  else (entries.find? fun entry => entry.1 = location).map Prod.snd

def wellHeld (legal : Name → Bool) (entries : List (Location Name × Node Name)) : Bool :=
  entries.all fun entry => entry.1.getLast?.all fun name =>
    legal name && entryAt entries entry.1.dropLast == some .directory

theorem entryAt_concat {legal : Name → Bool} {entries : List (Location Name × Node Name)}
    (held : wellHeld legal entries = true) {location : Location Name} {name : Name}
    (present : entryAt entries (location ++ [name]) ≠ none) :
    legal name = true ∧ entryAt entries location = some .directory := by
  rw [entryAt, if_neg (by simp)] at present
  obtain ⟨entry, found⟩ : ∃ entry,
      entries.find? (fun entry => entry.1 = location ++ [name]) = some entry := by
    apply Option.ne_none_iff_exists'.mp
    intro absent
    exact present (by rw [absent]; rfl)
  have matched := List.find?_some found
  have same : entry.1 = location ++ [name] := of_decide_eq_true matched
  have checked := List.all_eq_true.mp held entry (List.mem_of_find?_eq_some found)
  rw [same, List.getLast?_concat, List.dropLast_concat, Option.all_some, Bool.and_eq_true,
    beq_iff_eq] at checked
  exact checked

def ofEntries (legal : Name → Bool) (entries : List (Location Name × Node Name))
    (held : wellHeld legal entries = true) : FileTree Name where
  legal := legal
  node := entryAt entries
  root := rfl
  held := fun _ _ present => (entryAt_concat held present).2
  named := fun _ _ present => (entryAt_concat held present).1

end

end FileTree

/-! ## Paths as texts

A path text as the kernel reads it, and as a list of components. The components leave out each `.`
but one at the start. -/

def pathStep (part : List Char) : PathStep String :=
  if part = ['.'] then .here else if part = ['.', '.'] then .up else .down (String.ofList part)

def isAbsolute (text : List Char) : Bool := text.head? == some '/'

/-- The path as the kernel reads it, from the directory that it starts at. -/
def pathSteps (text : List Char) : List (PathStep String) :=
  (Paths.split text).map pathStep ++ if text.getLast? = some '/' then [.here] else []

inductive Component where
  | rootDir
  | curDir
  | parentDir
  | normal (part : String)
  deriving DecidableEq, Repr

def componentOf (part : List Char) : Option Component :=
  if part = ['.'] then none
  else if part = ['.', '.'] then some .parentDir
  else some (.normal (String.ofList part))

def components (text : List Char) : List Component :=
  (if isAbsolute text then [.rootDir]
    else if (Paths.split text).head? = some ['.'] then [.curDir] else []) ++
    (Paths.split text).filterMap componentOf

def downs (names : List String) : List (PathStep String) := names.map .down

example : components "./src/./a//b/../".toList =
    [.curDir, .normal "src", .normal "a", .normal "b", .parentDir] := by decide

end Kvist.FileSystem
