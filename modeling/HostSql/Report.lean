import HostSql.Files.Path

/-! What became of each file of a run, and the summary of all. -/
namespace HostSql

inductive FileStatus where
  | unchanged
  | changed
  | failed (message : String)
deriving DecidableEq, Repr

structure FileResult where
  path : Path
  status : FileStatus
  /-- Fragments found in the file. -/
  candidates : Nat := 0
  /-- Fragments that got another text. -/
  replaced : Nat := 0
deriving DecidableEq, Repr

structure Report where
  results : List FileResult := []
deriving DecidableEq, Repr

namespace FileStatus

def isUnchanged : FileStatus → Bool
  | unchanged => true
  | _ => false

def isChanged : FileStatus → Bool
  | changed => true
  | _ => false

def isFailed : FileStatus → Bool
  | failed _ => true
  | _ => false

end FileStatus

namespace Report

def add (r : Report) (result : FileResult) : Report := ⟨r.results ++ [result]⟩

def total (r : Report) : Nat := r.results.length

def unchanged (r : Report) : Nat := r.results.countP (·.status.isUnchanged)

def changed (r : Report) : Nat := r.results.countP (·.status.isChanged)

def errors (r : Report) : Nat := r.results.countP (·.status.isFailed)

/-- Replaced fragments of all files. -/
def fragments (r : Report) : Nat := (r.results.map (·.replaced)).foldr (· + ·) 0

def hasErrors (r : Report) : Bool := 0 < r.errors

def hasChanges (r : Report) : Bool := 0 < r.changed

def summary (r : Report) : String :=
  let part (n : Nat) (text : String) : List String := if n = 0 then [] else [text]
  ", ".intercalate
    ([s!"{r.total} file(s) processed"] ++
      part r.changed s!"{r.changed} reformatted ({r.fragments} SQL fragment(s))" ++
      part r.unchanged s!"{r.unchanged} unchanged" ++
      part r.errors s!"{r.errors} error(s)")

end Report

namespace FileResult

/-- What a run tells about a file when it tells about each one. -/
def line? (r : FileResult) : Option String :=
  match r.status with
  | .changed =>
    some s!"reformatted {r.path.toString} ({r.replaced} of {r.candidates} fragment(s))"
  | .unchanged => some s!"unchanged {r.path.toString}"
  | .failed _ => none

def errorLine? (r : FileResult) : Option String :=
  match r.status with
  | .failed message => some s!"error: {r.path.toString}: {message}"
  | _ => none

end FileResult
end HostSql
