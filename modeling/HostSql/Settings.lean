import HostSql.Config
import HostSql.Files.Workspace
import HostSql.Toml.Document

/-! Settings from a file: one that is asked for, or the first one found in the directories of the
inputs and above them, or the user's own. -/
namespace HostSql

structure Settings where
  config : Config := {}
  /-- Patterns of names and paths that are left out. -/
  exclude : List Text := []
deriving DecidableEq, Repr

inductive SettingsError where
  | missing (path : Path)
  | unreadable (fault : ReadFault)
  /-- The text is no TOML document. -/
  | malformed (path : Path)
  | sectionNotTable (path : Path)
  | excludeNotArray
  /-- A key that is not known, or a value of the wrong type. -/
  | unsuitable
deriving DecidableEq, Repr

namespace Settings

def toolName : String := "embedded-sqlfmt"

def projectFile : String := "pyproject.toml"

def dedicatedFile : String := "embedded-sqlfmt.toml"

end Settings

namespace SettingsError

def ofConfig (text : String) : String := "embedded-sqlfmt config error: " ++ text

/-- The message, and the messages of its causes. -/
def messages : SettingsError → List String
  | missing p => [ofConfig ("Config file not found: " ++ p.toString)]
  | unreadable fault => ["IO error: " ++ fault.message, fault.message]
  | malformed p => [ofConfig ("Failed to parse " ++ p.toString ++ ": TOML parse error")]
  | sectionNotTable p =>
    [ofConfig ("[tool." ++ Settings.toolName ++ "] in " ++ p.toString ++ " must be a table")]
  | excludeNotArray => [ofConfig "exclude must be an array of glob patterns"]
  | unsuitable => ["TOML parse error"]

end SettingsError

namespace Settings

/-- The section of a project file, if it has one. Any other file can hold the section or, without
it, be the section itself. -/
def section? (w : Workspace) (p : Path) : Except SettingsError (Option Toml.Table) :=
  match w.read p with
  | .error fault => .error (.unreadable fault)
  | .ok text =>
    match Toml.parse? text with
    | none => .error (.malformed p)
    | some document =>
      let tool : Toml.Table :=
        match document.lookup "tool".toList with
        | some (.table t) => t
        | _ => []
      match tool.lookup toolName.toList with
      | some (.table t) => .ok (some t)
      | some _ => .error (.sectionNotTable p)
      | none =>
        if p.fileName? = some projectFile.toList then .ok none else .ok (some document)

/-- A point in time is a text like any other. -/
def textOf? : Toml.Value → Option String
  | .string t => some (String.ofList t)
  | .moment m => some (String.ofList m.text)
  | _ => none

def countOf? : Toml.Value → Option Nat
  | .integer n => if n < 0 then none else some n.toNat
  | _ => none

def switchOf? : Toml.Value → Option Bool
  | .boolean b => some b
  | _ => none

def set? (c : Config) (key : String) (v : Toml.Value) : Option Config :=
  match key with
  | "dialect" => (textOf? v).map fun s => { c with dialect := s }
  | "indent" => (countOf? v).map fun n => { c with indent := n }
  | "uppercase" => (switchOf? v).map fun b => { c with uppercase := b }
  | "pretty" => (switchOf? v).map fun b => { c with pretty := b }
  | "debug" => (switchOf? v).map fun b => { c with debug := b }
  | "call_name" => (textOf? v).map fun s => { c with callName := s }
  | "magic_marker" => (textOf? v).map fun s => { c with magicMarker := s }
  | _ => none

def excludeKey : Text := "exclude".toList

def patterns (vs : List Toml.Value) : List Text :=
  vs.filterMap fun
    | .string t => some t
    | _ => none

/-- The patterns are looked at before all other keys. -/
def ofTable (t : Toml.Table) : Except SettingsError Settings := do
  let exclude ← match t.lookup excludeKey with
    | none => pure []
    | some (.array vs) => pure (patterns vs)
    | some _ => throw .excludeNotArray
  let others := t.filter fun (key, _) => key != excludeKey
  match others.foldlM (fun c (key, v) => set? c (String.ofList key) v) ({} : Config) with
  | some config => return { config, exclude }
  | none => throw .unsuitable

/-- The directory in which the search for an input begins: itself or the one that holds it, by its
absolute path if it exists. -/
def start (w : Workspace) (p : Path) : Path :=
  let dir :=
    if w.hasDirectory p then p
    else
      match p.parent? with
      | some q => if q.text.isEmpty then ⟨['.']⟩ else q
      | none => ⟨['.']⟩
  ((w.place? dir).map Path.ofPlace).getD dir

/-- Leaves out every directory that is the same as one before it. -/
def distinct (dirs : List Path) : List Path :=
  dirs.foldl (fun seen d => if seen.any (·.isSame d) then seen else seen ++ [d]) []

/-- The directories that are searched, in this order. -/
def searched (w : Workspace) (inputs : List Path) : List Path :=
  distinct (inputs.flatMap fun p => (start w p).withAncestors)

/-- A project file without the section does not end the search. -/
def fileIn? (w : Workspace) (dir : Path) : Option Path :=
  let project := dir.join projectFile.toList
  let dedicated := dir.join dedicatedFile.toList
  let hasSection :=
    match section? w project with
    | .ok (some _) => true
    | _ => false
  if hasSection then some project
  else if w.has dedicated then some dedicated
  else none

/-- The file that settings are read from, if there is one. -/
def file? (w : Workspace) (user : Option Path) (inputs : List Path) (asked : Option Path) :
    Except SettingsError (Option Path) :=
  match asked with
  | some p => if w.has p then .ok (some p) else .error (.missing p)
  | none => .ok (((searched w inputs).findSome? (fileIn? w)).or (user.filter w.has))

def load (w : Workspace) (user : Option Path) (inputs : List Path) (asked : Option Path) :
    Except SettingsError Settings := do
  match ← file? w user inputs asked with
  | none => return {}
  | some p =>
    match ← section? w p with
    | none => return {}
    | some t => ofTable t

end Settings
end HostSql
