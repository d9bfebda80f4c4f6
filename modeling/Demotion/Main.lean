import Demotion.CommandLine.Run

/-!
# The command as a program

The outer layer of the command. It reads the files that the command may look at into a tree, runs
the command on that tree, prints the output and writes the files that the command made. The tool
itself is not started from here, so an analysis reports that it could not be started.
-/

namespace Demotion.Main

/-- The host of the command. Its console prints no lone halves. -/
def host : Host := ⟨1000, 0x1000000000, false⟩

/-- The path of a place. -/
def pathOf (place : Place) : String :=
  "/" ++ "/".intercalate (place.map fun name => name.content.shown)

/-- The place that a path names, seen from a directory. -/
def placeOf (working : Place) (path : String) : Place :=
  let p := FilePath.ofText path
  (if p.start = .here then working else []) ++ p.names.map FileName.ofContent

/-- The node at a place of the disk, a directory without its entries. What is there and cannot be read
counts as a file that is not opened. -/
def readNode? (place : Place) : IO (Option Node) := do
  try
    let content ← IO.FS.readBinFile (pathOf place)
    return some (.file content.toList)
  catch _ =>
    let found ← try pure (some (← IO.FS.realPath (pathOf place))) catch _ => pure none
    match found with
    | some path =>
      if ← path.isDir then return some (.directory [])
      else return if ← path.pathExists then some (.closed (.file []) .denied) else none
    | none => return none

/-- The tree with the nodes that lead to a place and the node there. -/
def loadPlace (top : Node) (place : Place) : IO Node := do
  let mut tree := top
  for n in List.range place.length do
    let here := place.take (n + 1)
    if (tree.get? here).isNone then
      match ← readNode? here with
      | some node => tree := tree.put here node
      | none => return tree
  return tree

/-- Writes to the disk what a tree has more than another. -/
partial def writeNew (before : Node) (place : Place) (node : Node) : IO Unit := do
  match node with
  | .file content =>
    let same : Bool := match before.get? place with
      | some (.file old) => old == content
      | _ => false
    unless same do
      IO.FS.writeBinFile (pathOf place) ⟨content.toArray⟩
  | .directory es =>
    if (before.get? place).isNone then
      IO.FS.createDirAll (pathOf place)
    for e in es do
      writeNew before (place ++ [e.1]) e.2
  | .closed _ _ => return
  | .link _ => return

/-- The variables of the environment that the command looks at. -/
def readEnvironment : IO Environment := do
  let mut known : List (String × String) := []
  for name in EnvironmentFile.switchName :: CommandLine.widthVariable :: Settings.variableNames do
    if let some value ← IO.getEnv name then
      known := (name, value) :: known
  let bound := known
  return fun name => (bound.find? fun e => e.1 = name).map (·.2)

/-- The seconds since the start of 1970, taken from a file that is made now. -/
def now : IO Int :=
  IO.FS.withTempFile fun _ path => return (← path.metadata).modified.sec

/-- An id that no other workspace has. -/
def freshId : IO String := do
  let n ← IO.rand 0 (Nat.pow 2 128 - 1)
  return String.ofList (Text.hex 32 n)

/-- The paths that the command looks at with given arguments. -/
def pathsOfInterest (arguments : List String) (env : Environment) : List String :=
  let source := match CommandLine.parse arguments with
    | .ok a => [a.source]
    | .error _ => []
  match Settings.ofEnvironment env with
  | .ok s => source ++ [s.workspaceRoot] ++ s.logFile.toList
  | .error _ => source

/-- Runs the command on the files of the disk. -/
def run (arguments : List String) : IO UInt32 := do
  let env ← readEnvironment
  let working := placeOf [] (← IO.currentDir).toString
  let mut top : Node := .directory []
  for n in List.range (working.length + 1) do
    top ← loadPlace top (working.take n ++ [.text CommandLine.environmentFileName])
  let loaded := match CommandLine.environment env ⟨top, working⟩ with
    | .ok env => env
    | .error _ => env
  for path in pathsOfInterest arguments loaded do
    top ← loadPlace top (placeOf working path)
  let circumstances : Analysis.Circumstances := ⟨host, .absent, ← freshId, .none⟩
  match Log.stamp (← now) with
  | .error e =>
    IO.eprintln e.message
    return 1
  | .ok time =>
    match CommandLine.run arguments env time circumstances ⟨top, working⟩ with
    | .error crash =>
      IO.eprintln crash.message
      return 1
    | .ok finished =>
      writeNew top [] finished.tree.top
      for output in finished.output do
        IO.print (output.render time).shown
      IO.eprint finished.complaint
      return finished.exit.toUInt32

end Demotion.Main

def main (arguments : List String) : IO UInt32 :=
  Demotion.Main.run arguments
