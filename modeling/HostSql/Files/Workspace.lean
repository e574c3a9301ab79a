import HostSql.Files.Tree

/-! A tree together with the directory in it from which relative paths start. -/
namespace HostSql

structure Workspace where
  tree : Tree
  directory : List Text

/-- Why a file cannot be read as text. -/
inductive ReadFault where
  | missing
  | isDirectory
  | notUtf8
deriving DecidableEq, Repr

def ReadFault.message : ReadFault → String
  | missing => "No such file or directory (os error 2)"
  | isDirectory => "Is a directory (os error 21)"
  | notUtf8 => "stream did not contain valid UTF-8"

namespace Workspace

/-- One piece of a path leads on from a directory only; above the root lies the root. -/
def step (t : Tree) (place : List Text) (piece : Text) : Option (List Text) :=
  match t.find? place with
  | some (.directory _) =>
    if Path.isVoid piece then some place
    else if piece == ['.', '.'] then some place.dropLast
    else some (place ++ [piece])
  | _ => none

/-- The place that a path names, if something lies there. The empty path names nothing. -/
def place? (w : Workspace) (p : Path) : Option (List Text) :=
  if p.text.isEmpty then none
  else
    match p.pieces.foldlM (step w.tree) (if p.isRooted then [] else w.directory) with
    | some place => if (w.tree.find? place).isSome then some place else none
    | none => none

def find? (w : Workspace) (p : Path) : Option Tree := (w.place? p).bind (w.tree.find? ·)

def has (w : Workspace) (p : Path) : Bool := (w.find? p).isSome

def hasDirectory (w : Workspace) (p : Path) : Bool :=
  match w.find? p with
  | some t => t.isDirectory
  | none => false

def read (w : Workspace) (p : Path) : Except ReadFault Text :=
  match w.find? p with
  | none => .error .missing
  | some (.directory _) => .error .isDirectory
  | some (.file content) =>
    match String.fromUTF8? content with
    | some s => .ok s.toList
    | none => .error .notUtf8

def write (w : Workspace) (p : Path) (t : Text) : Workspace :=
  match w.place? p with
  | some place => { w with tree := w.tree.write (String.ofList t).toUTF8 place }
  | none => w

end Workspace
end HostSql
