import HostSql.Config

/-! What formats the text of a fragment. Everything that replaces fragments takes a formatter as an
argument and asks nothing of it. -/
namespace HostSql

/-- Why a formatter gave no text. -/
inductive FormatError where
  | emptyInput
  | parse (message : String)
  | invalidOption (message : String)
deriving DecidableEq, Repr

def FormatError.message : FormatError → String
  | emptyInput => "empty SQL input"
  | parse m => s!"SQL parse error: {m}"
  | invalidOption m => s!"invalid formatter option: {m}"

abbrev Formatter := Config → Text → Except FormatError Text

namespace Formatter

def identity : Formatter := fun _ t => .ok t

def upper : Formatter := fun _ t => .ok t.upper

def lower : Formatter := fun _ t => .ok t.lower

def constant (text : Text) : Formatter := fun _ _ => .ok text

def failing (error : FormatError) : Formatter := fun _ _ => .error error

/-- Puts each pair's second text in place of its first, pair after pair. -/
def replacing (pairs : List (Text × Text)) : Formatter :=
  fun _ t => .ok (pairs.foldl (fun t (old, new) => t.replace old new) t)

def isClause (word : Text) : Bool :=
  ["SELECT", "FROM", "WHERE", "JOIN"].contains (String.ofList word.upper)

/-- A clause in upper case on a line of its own with the words that follow it. -/
def clauses : Formatter := fun _ t =>
  let cased (word : Text) := if isClause word then word.upper else word
  match t.words with
  | [] => .error .emptyInput
  | first :: more =>
    .ok (cased first ++ more.flatMap fun word =>
      (if isClause word then '\n' else ' ') :: cased word)

end Formatter
end HostSql
