import Patchbay.Cache

/-!
# Files that commands work on

A workspace holds text files and stores. A path leads step by step from the folder of the workspace, or
from the root, to a file or to a folder; `..` leads to the folder around. Folders are there as far as files
are in them; those around the workspace and those of the system are always there.
-/

namespace Patchbay

/-- What can stand under a path. -/
inductive Entry where
  | text (content : String)
  | store (store : Store)
  | folder
deriving Inhabited

/-- Files by path. -/
structure Workspace where
  files : Table String Entry
deriving Inhabited

/-! ## Paths -/

/-- The steps of a path that lead somewhere. -/
def pathSteps (path : String) : List String :=
  (path.splitOn "/").filter fun step => step ≠ "" && step ≠ "."

/-- The slashes that a path starts with: one stands for any number except two. -/
def pathFront (path : String) : String :=
  match path.toList.takeWhile (· = '/') with
  | [] => ""
  | ['/', '/'] => "//"
  | _ => "/"

/-- A path without steps that lead nowhere; the empty path is the current folder. -/
def cleanPath (path : String) : String :=
  match pathFront path ++ "/".intercalate (pathSteps path) with
  | "" => "."
  | cleaned => cleaned

/-- Where a path leads. -/
structure Location where
  /-- Whether the steps start at the root. -/
  absolute : Bool
  /-- How many folders up from that of the workspace the steps start. -/
  ups : Nat
  steps : List String
deriving DecidableEq, Repr, Inhabited

namespace Location

/-- Where a path starts. -/
def start (path : String) : Location := ⟨path.startsWith "/", 0, []⟩

/-- The folder around. The root is its own. -/
def up (l : Location) : Location :=
  if l.steps.isEmpty && !l.absolute then { l with ups := l.ups + 1 } else { l with steps := l.steps.dropLast }

/-- One step further. -/
def down (l : Location) (step : String) : Location := { l with steps := l.steps ++ [step] }

/-- The path under which a file at the location is kept. -/
def path (l : Location) : String :=
  cleanPath ((if l.absolute then "/" else "") ++ "/".intercalate (List.replicate l.ups ".." ++ l.steps))

end Location

/-- Folders that every system has. -/
def systemFolders : List (List String) :=
  [["bin"], ["dev"], ["etc"], ["home"], ["lib"], ["opt"], ["proc"], ["root"], ["run"], ["sbin"], ["srv"],
   ["sys"], ["tmp"], ["usr"], ["usr", "bin"], ["usr", "lib"], ["usr", "local"], ["var"], ["var", "tmp"]]

/-- How many bytes a step of a path may have. -/
def stepLimit : Nat := 255

/-- How many bytes a path may have. -/
def pathLimit : Nat := 4095

namespace Workspace

/-! ## Following paths -/

/-- Whether a location is that of a folder. -/
def isFolder (w : Workspace) (l : Location) : Bool :=
  l.steps.isEmpty || (l.absolute && systemFolders.contains l.steps)
    || w.files.keys.any fun file => file.startsWith (l.path ++ "/")

/-- Follows steps; none if a step leaves what is no folder. -/
def follow (w : Workspace) : Location → List String → Except Fault (Option Location)
  | l, [] => .ok (some l)
  | l, step :: steps =>
    if !w.isFolder l then .ok none
    else if stepLimit < step.utf8ByteSize then .error .pathTooLong
    else w.follow (if step = ".." then l.up else l.down step) steps

/-- Where a path leads, if it can be followed. One with a null character leads nowhere. -/
def locate (w : Workspace) (path : String) : Except Fault (Option Location) :=
  if path.contains '\x00' then .ok none
  else if pathLimit < path.utf8ByteSize then .error .pathTooLong
  else w.follow (.start path) (pathSteps path)

/-- What stands at a location. -/
def entryAt? (w : Workspace) (l : Location) : Option Entry :=
  if w.isFolder l then some .folder else w.files.get? l.path

/-- The text of a file, with plain line ends; none if there is no such file. -/
def read (w : Workspace) (path : String) : Except Fault (Option String) := do
  let some location ← w.locate path | return none
  match w.entryAt? location with
  | none => return none
  | some (.text content) => return some (String.ofList (Text.plainNewlines content.toList))
  | some (.store _) => .error .notText
  | some .folder => .error .isFolder

/-! ## Stores -/

/-- The path of a store that is kept nowhere: what is put into it is gone at once. -/
def passingStore : String := ":memory:"

/-- The store under a path, with the path it is kept under. It is a new one if there is no file, or one of
a single byte at most. -/
def openStore (w : Workspace) (path : String) : Except Fault (String × Store) :=
  if path.contains '\x00' then .error .malformedPath
  else
    match w.locate path with
    | .ok (some location) =>
      match w.entryAt? location with
      | some (.store store) => .ok (location.path, store)
      | some (.text content) =>
        if content.utf8ByteSize ≤ 1 then .ok (location.path, .empty) else .error .notStore
      | some .folder => .error .cannotOpenStore
      | none => .ok (location.path, .empty)
    | _ => .error .cannotOpenStore

/-- Keeps a store under a path. -/
def keepStore (w : Workspace) (path : String) (store : Store) : Workspace :=
  ⟨w.files.insert path (.store store)⟩

end Workspace

end Patchbay
