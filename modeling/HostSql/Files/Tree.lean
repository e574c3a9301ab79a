import HostSql.Files.Path

/-! Directory trees without links. A place in a tree is the list of names that lead to it from the
root. -/
namespace HostSql

inductive Tree where
  | file (content : ByteArray)
  | directory (entries : List (Text × Tree))
deriving Inhabited

/-- The entries of a directory; a name belongs to its first entry. -/
abbrev Entries := List (Text × Tree)

namespace Tree

def isFile : Tree → Bool
  | file _ => true
  | directory _ => false

def isDirectory (t : Tree) : Bool := !t.isFile

def find? : List Text → Tree → Option Tree
  | [], t => some t
  | _ :: _, file _ => none
  | name :: names, directory es => (es.lookup name).bind (find? names)

/-- Changes the first entry of that name. -/
def changeEntry (name : Text) (change : Tree → Tree) : Entries → Entries
  | [] => []
  | (n, t) :: es => if name = n then (n, change t) :: es else (n, t) :: changeEntry name change es

/-- Gives new content to the file at a place; where there is none, nothing changes. -/
def write (content : ByteArray) : List Text → Tree → Tree
  | [], file _ => file content
  | [], directory es => directory es
  | _ :: _, file c => file c
  | name :: names, directory es => directory (changeEntry name (write content names) es)

/-- Puts a tree at a place, and directories on the way to it. -/
def insert (new : Tree) : List Text → Tree → Tree
  | [], _ => new
  | name :: names, file _ => directory [(name, insert new names (directory []))]
  | name :: names, directory es =>
    if (es.lookup name).isSome then directory (changeEntry name (insert new names) es)
    else directory (es ++ [(name, insert new names (directory []))])

mutual

/-- All files with the places where they lie; the tree itself lies at the given place. -/
def files (place : List Text) : Tree → List (List Text × ByteArray)
  | file content => [(place, content)]
  | directory es => filesOfEntries place es

def filesOfEntries (place : List Text) : List (Text × Tree) → List (List Text × ByteArray)
  | [] => []
  | e :: es => filesOfEntry place e ++ filesOfEntries place es

def filesOfEntry (place : List Text) : Text × Tree → List (List Text × ByteArray)
  | (name, t) => files (place ++ [name]) t

end

end Tree
end HostSql
