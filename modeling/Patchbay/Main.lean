import Patchbay.CommandLine

/-!
# The program

Reads the files that a call names, runs the call on them, prints what it prints, and writes the store back
if the call has one.
-/

namespace Patchbay.Console.Files

/-- The text of a file; none if it cannot be read. -/
def readText? (path : String) : IO (Option String) := do
  try
    return some (← IO.FS.readFile path)
  catch _ => return none

/-- The paths that a call reads text from, and the one of its store. -/
def pathsOf : Call → List String × Option String
  | .command (.check files _ _ store) => (files, store)
  | .command (.outline file _ _ _) => ([file], none)
  | .command (.diagnose _ source _) => (source.toList, none)
  | .command (.fixes file _ _) => ([file], none)
  | _ => ([], none)

/-- What a file for a store holds: a store, or text that is none. -/
def storeEntry (content : String) : Entry :=
  match (Json.read? content).map Store.check with
  | some (.ok store) => .store store
  | _ => .text content

/-- The workspace of a call. -/
def gather (call : Call) : IO Workspace := do
  let (paths, store) := pathsOf call
  let mut files : Table String Entry := .empty
  for path in paths do
    if let some content ← readText? path then
      files := files.insert path (.text content)
  if let some path := store then
    if let some content ← readText? path then
      files := files.insert path (storeEntry content)
  return ⟨files⟩

/-- Writes the store of a call back. -/
def keep (call : Call) (w : Workspace) : IO Unit := do
  if let some path := (pathsOf call).2 then
    if let .ok (some location) := w.locate path then
      if let some (.store store) := w.entryAt? location then
        IO.FS.writeFile location.path (Json.write store.toDatum ++ "\n")

/-- Prints how a call ended, and gives its exit. -/
def conclude : Outcome → IO UInt32
  | .misused => do
    IO.eprintln "usage: patchbay [--debug] [-v] (check | structure | diagnose | fixes) ARGUMENTS"
    return 2
  | .failed fault => do
    IO.eprintln ("failed: " ++ fault.message.getD (reprStr fault))
    return 1
  | .finished exit output => do
    IO.print output
    return exit.toUInt32

end Patchbay.Console.Files

/-- Runs a call. -/
def main (args : List String) : IO UInt32 := do
  let call := Patchbay.CommandLine.readCall args
  let (outcome, w) := Patchbay.CommandLine.run .standard (← Patchbay.Console.Files.gather call) args
  Patchbay.Console.Files.keep call w
  Patchbay.Console.Files.conclude outcome
