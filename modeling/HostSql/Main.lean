import HostSql.CommandLine.Session

/-! The program: reads what a call can see, answers it, and writes back the files that changed. -/
namespace HostSql.Program

def directory (path : String) : IO.FS.DirEntry := ⟨path, "."⟩

def isDirectory (path : String) : IO Bool := (directory path).path.isDir

/-- Files whose content a run can need. -/
def isWanted (p : Path) : Bool :=
  p.isSource || p.fileName? = some Settings.projectFile.toList ||
    p.fileName? = some Settings.dedicatedFile.toList

def readFile? (path : String) : IO (Option Tree) := do
  try return some (.file (← IO.FS.readBinFile path)) catch _ => return none

partial def readTree? (p : Path) (always : Bool) : IO (Option Tree) := do
  if ← isDirectory p.toString then
    let mut entries : Entries := []
    for e in ← (directory p.toString).path.readDir do
      let name := e.fileName.toList
      if !isHidden name then
        if let some t ← readTree? (p.join name) false then entries := (name, t) :: entries
    return some (.directory entries)
  else if always || isWanted p then readFile? p.toString
  else return none

/-- Adds what lies at a place, unless the tree has something there. -/
def addPlace (deep : Bool) (tree : Tree) (place : List Text) : IO Tree := do
  if (tree.find? place).isSome then return tree
  let p := Path.ofPlace place
  if !deep && (← isDirectory p.toString) then return Tree.insert (.directory []) place tree
  match ← readTree? p true with
  | some t => return Tree.insert t place tree
  | none => return tree

/-- The place that a path leads to if nothing on the way is a link. -/
def placeFrom (start : List Text) (p : Path) : List Text :=
  p.pieces.foldl (fun place piece =>
    if piece == ['.', '.'] then place.dropLast
    else if Path.isVoid piece then place
    else place ++ [piece]) (if p.isRooted then [] else start)

/-- Adds a path, the directories that it passes through, and the settings files above it. -/
def addPath (deep : Bool) (start : List Text) (tree : Tree) (p : Path) : IO Tree := do
  let mut tree := tree
  for n in List.range p.pieces.length do
    let way := List.intercalate ['/'] (p.pieces.take n)
    tree ← addPlace false tree (placeFrom start { p with text := way })
  let place := placeFrom start p
  if deep then
    if let some t ← readTree? (Path.ofPlace place) true then tree := Tree.insert t place tree
  else tree ← addPlace true tree place
  let mut above := place
  for _ in place do
    above := above.dropLast
    for name in [Settings.projectFile, Settings.dedicatedFile] do
      tree ← addPlace true tree (above ++ [name.toList])
  return tree

def userSettings? : IO (Option Path) := do
  let config ← match ← IO.getEnv "XDG_CONFIG_HOME" with
    | some dir => pure (some (Path.ofString dir))
    | none => pure ((← IO.getEnv "HOME").map fun home => (Path.ofString home).join ".config".toList)
  return config.map fun dir => (dir.join Settings.toolName.toList).join "config.toml".toList

partial def readAll (input : IO.FS.Stream) (got : ByteArray) : IO ByteArray := do
  let more ← input.read 65536
  if more.isEmpty then return got else readAll input (got ++ more)

def surroundings (o : CommandLine.Options) : IO CommandLine.Surroundings := do
  let start := placeFrom [] (Path.ofString (toString (← IO.currentDir)))
  let user ← userSettings?
  let mut tree := Tree.directory []
  let depth (p : Path) : Nat := (placeFrom start p).length
  for p in o.files.mergeSort fun p q => depth p ≤ depth q do
    tree ← addPath true start tree p
  for p in o.config.toList ++ user.toList do
    tree ← addPath false start tree p
  let fromInput := o.files = [⟨['-']⟩]
  return {
    workspace := ⟨tree, start⟩
    userSettings := user
    input := ← if fromInput then readAll (← IO.getStdin) ⟨#[]⟩ else pure ⟨#[]⟩
    noColour := (← IO.getEnv "NO_COLOR").isSome }

/-- Writes the files whose content is not what it was. -/
def writeChanges (before after : Tree) : IO Unit := do
  for ((place, old), (_, new)) in (before.files []).zip (after.files []) do
    if old != new then IO.FS.writeBinFile (Path.ofPlace place).toString new

end HostSql.Program

open HostSql in
def main (arguments : List String) : IO UInt32 := do
  let request := CommandLine.Request.ofArguments (arguments.map String.toList)
  let seen ← match request with
    | .work o => Program.surroundings o
    | _ => pure { workspace := ⟨.directory [], []⟩ }
  let answer := CommandLine.answer seen request
  Program.writeChanges seen.workspace.tree answer.workspace.tree
  (← IO.getStdout).putStr (String.ofList answer.output)
  (← IO.getStderr).putStr (String.ofList answer.notes)
  return answer.code.toUInt32
