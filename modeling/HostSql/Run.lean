import HostSql.Diff
import HostSql.Files.Discover
import HostSql.Report
import HostSql.Transform

/-! One run over the source files of a workspace, with any formatter, any way to compare texts and any
reader of patterns. -/
namespace HostSql

structure RunOptions where
  config : Config := {}
  /-- Patterns of names and paths that are left out. -/
  exclude : List Text := []
  /-- Write nothing. -/
  check : Bool := false
  /-- Show what would change, and write nothing. -/
  diff : Bool := false
  /-- Show differences in colour. -/
  coloured : Bool := false
  singleProcess : Bool := false
  /-- How many files are worked on at a time; zero leaves it to the machine. -/
  threads : Nat := 0
deriving DecidableEq, Repr

/-- What is done about one file. -/
structure FileStep where
  result : FileResult
  /-- The new text of the file, if it is to be written. -/
  written : Option Text := none
  /-- The difference to show. -/
  diff : Text := []

namespace FileStep

def of (format : Formatter) (differ : Diff.Differ) (o : RunOptions) (p : Path) :
    Except ReadFault Text → FileStep
  | .error fault => { result := { path := p, status := .failed ("Read error: " ++ fault.message) } }
  | .ok source =>
    let t := transform format o.config source
    if t.changed then
      { result :=
          { path := p, status := .changed, candidates := t.candidates, replaced := t.replaced }
        written := if o.check || o.diff then none else some t.text
        diff := if o.diff then Diff.print differ o.coloured p.text source t.text else [] }
    else { result := { path := p, status := .unchanged, candidates := t.candidates } }

def apply (w : Workspace) (s : FileStep) : Workspace :=
  match s.written with
  | some t => w.write s.result.path t
  | none => w

end FileStep

/-- What a run leaves behind. -/
structure Outcome where
  steps : List FileStep
  workspace : Workspace

namespace Outcome

def report (r : Outcome) : Report := ⟨r.steps.map (·.result)⟩

def diff (r : Outcome) : Text := r.steps.flatMap (·.diff)

end Outcome

namespace Workspace

/-- The files one after the other, each as the ones before it have left it. -/
def runInTurn (format : Formatter) (differ : Diff.Differ) (o : RunOptions) (w : Workspace) :
    List Path → Outcome
  | [] => ⟨[], w⟩
  | p :: ps =>
    let s := FileStep.of format differ o p (w.read p)
    let r := runInTurn format differ o (s.apply w) ps
    ⟨s :: r.steps, r.workspace⟩

/-- All files as they are at the beginning. -/
def runAtOnce (format : Formatter) (differ : Diff.Differ) (o : RunOptions) (w : Workspace)
    (ps : List Path) : Outcome :=
  let steps := ps.map fun p => FileStep.of format differ o p (w.read p)
  ⟨steps, steps.foldl FileStep.apply w⟩

/-- A run over the source files of the inputs. It fails only for patterns that are refused. -/
def runWith {ε : Type} (format : Formatter) (differ : Diff.Differ) (exclusion : Exclusion.Reader ε)
    (o : RunOptions) (w : Workspace) (inputs : List Path) : Except ε Outcome := do
  let excluded ← exclusion o.exclude
  let paths := w.discover excluded inputs
  if o.singleProcess || o.threads = 1 || paths.length ≤ 1 then return runInTurn format differ o w paths
  else return runAtOnce format differ o w paths

end Workspace
end HostSql
