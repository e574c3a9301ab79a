import HostSql.Files.Workspace

/-! The host source files that a list of paths stands for. What makes an exclusion of patterns is an
argument of everything that runs over files, and nothing is asked of it. -/
namespace HostSql

def isHidden (name : Text) : Bool := name.head? == some '.'

/-- Entries of directories that are left out, by their name or by their path. -/
abbrev Exclusion := Text → Bool

namespace Exclusion

/-- Makes an exclusion of patterns, or refuses them. -/
abbrev Reader (ε : Type) := List Text → Except ε Exclusion

def covers (excluded : Exclusion) (dir : Path) (name : Text) : Bool :=
  isHidden name || excluded name || excluded (dir.join name).text

end Exclusion

namespace Tree

mutual

/-- The source files of the tree at path `p`. -/
def sources (excluded : Exclusion) (p : Path) : Tree → List Path
  | file _ => if p.isSource then [p] else []
  | directory es => sourcesOfEntries excluded p es

def sourcesOfEntries (excluded : Exclusion) (dir : Path) : List (Text × Tree) → List Path
  | [] => []
  | e :: es => sourcesOfEntry excluded dir e ++ sourcesOfEntries excluded dir es

def sourcesOfEntry (excluded : Exclusion) (dir : Path) : Text × Tree → List Path
  | (name, t) => if excluded.covers dir name then [] else sources excluded (dir.join name) t

end

end Tree

namespace Path

/-- Puts a path at its place in an ascending list; of two spellings the one already there stays. -/
def insertNew (p : Path) : List Path → List Path
  | [] => [p]
  | q :: qs =>
    if p.key < q.key then p :: q :: qs
    else if p.key = q.key then q :: qs
    else q :: insertNew p qs

end Path

namespace Workspace

/-- Exclusion concerns what is met on the way down, never the path that was asked for. -/
def sourcesAt (excluded : Exclusion) (w : Workspace) (p : Path) : List Path :=
  match w.find? p with
  | some t => t.sources excluded p
  | none => []

/-- The source files of all inputs, ascending and each one once. -/
def discover (excluded : Exclusion) (w : Workspace) (inputs : List Path) : List Path :=
  (inputs.flatMap (sourcesAt excluded w)).foldl (fun found p => p.insertNew found) []

end Workspace
end HostSql
