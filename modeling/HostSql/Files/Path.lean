import HostSql.Text.Basic

/-! Paths as they are written, and the components by which they are compared. Two spellings of a
path are the same path when their components are. -/
namespace HostSql

structure Path where
  text : Text
deriving DecidableEq, Repr, Inhabited

namespace Path

inductive Component where
  | root
  | current
  | parent
  | name (text : Text)
deriving DecidableEq, Repr

def ofString (s : String) : Path := ⟨s.toList⟩

def toString (p : Path) : String := String.ofList p.text

def isRooted (p : Path) : Bool := p.text.head? == some '/'

/-- The texts between the slashes. -/
def pieces (p : Path) : List Text := p.text.splitWhere (· == '/')

/-- A piece behind the first one that says nothing: `a//b` and `a/./b` are `a/b`. -/
def isVoid (piece : Text) : Bool := piece.isEmpty || piece == ['.']

def Component.ofPiece? (piece : Text) : Option Component :=
  if isVoid piece then none
  else if piece == ['.', '.'] then some .parent
  else some (.name piece)

/-- A dot is a component only at the beginning. -/
def components (p : Path) : List Component :=
  let lead : List Component :=
    if p.isRooted then [.root] else if p.pieces.head? == some ['.'] then [.current] else []
  lead ++ p.pieces.filterMap Component.ofPiece?

/-- The root comes first, then a leading dot, then the step upwards, then names by code points. -/
def Component.key : Component → List Nat
  | root => [0]
  | current => [1]
  | parent => [2]
  | name text => 3 :: text.map Char.toNat

/-- Paths are ordered component by component. -/
def key (p : Path) : List (List Nat) := p.components.map Component.key

def isSame (p q : Path) : Bool := p.components == q.components

def join (p : Path) (name : Text) : Path :=
  if p.text.isEmpty || p.text.getLast? == some '/' then ⟨p.text ++ name⟩
  else ⟨p.text ++ '/' :: name⟩

def fileName? (p : Path) : Option Text :=
  match p.components.getLast? with
  | some (.name text) => some text
  | _ => none

/-- What stands behind the last dot of a name that has more than its first character before it. -/
def extensionOf? (name : Text) : Option Text :=
  match name.reverse.dropWhile (· != '.') with
  | [] | [_] => none
  | _ :: _ :: _ => some (name.reverse.takeWhile (· != '.')).reverse

def extension? (p : Path) : Option Text := p.fileName?.bind extensionOf?

/-- Extensions of host source files, in lower case. -/
def sourceExtensions : List Text := ["py".toList]

def isSource (p : Path) : Bool :=
  match p.extension? with
  | some e => sourceExtensions.contains e.lower
  | none => false

/-- The pieces above the last component, all of them from the last to the first. -/
def above? : List Text → Option (List Text)
  | [] => none
  | [first] => if first.isEmpty then none else some []
  | piece :: next :: rest =>
    if isVoid piece then above? (next :: rest) else some (next :: rest)

/-- A path of the given pieces, void ones at its end left out. -/
def ofReversed : List Text → Path
  | [] => ⟨[]⟩
  | [first] => ⟨if first.isEmpty then ['/'] else first⟩
  | piece :: next :: rest =>
    if isVoid piece then ofReversed (next :: rest)
    else ⟨List.intercalate ['/'] (piece :: next :: rest).reverse⟩

def parent? (p : Path) : Option Path := (above? p.pieces.reverse).map ofReversed

theorem length_lt_of_above? {ps qs : List Text} (h : above? ps = some qs) :
    qs.length < ps.length := by
  induction ps with
  | nil => simp [above?] at h
  | cons piece rest ih =>
    cases rest with
    | nil =>
      simp only [above?] at h
      split at h <;> simp at h
      simp [← h]
    | cons next rest =>
      simp only [above?] at h
      split at h
      · have := ih h
        simp at this ⊢
        omega
      · simp at h
        simp [← h]

/-- The paths above the given pieces, from the nearest to the farthest. -/
def allAbove (ps : List Text) : List Path :=
  match _h : above? ps with
  | none => []
  | some qs => ofReversed qs :: allAbove qs
termination_by ps.length
decreasing_by exact length_lt_of_above? _h

/-- The path and all paths above it. -/
def withAncestors (p : Path) : List Path := p :: allAbove p.pieces.reverse

/-- The absolute path of a place in a tree. -/
def ofPlace (names : List Text) : Path := ⟨'/' :: List.intercalate ['/'] names⟩

end Path
end HostSql
