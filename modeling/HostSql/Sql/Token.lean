import HostSql.Sql.Dialect

/-! Tokens of SQL. Every token keeps the text that it covers, so the tokens of a text put together
are the text. -/
namespace HostSql.Sql

inductive StringKind where
  | single
  | double
  /-- Backslashes in it stand for other characters. -/
  | escaped
  | unicode
  /-- Hexadecimal, byte, raw, national and tripled ones, and those between dollar signs. -/
  | special
deriving DecidableEq, Repr

inductive TokenKind where
  | word
  | quotedWord (opening : Char)
  | number
  | string (kind : StringKind)
  | placeholder
  | symbol
  /-- An operator that users define. -/
  | customOperator
  /-- A character that starts nothing. -/
  | stray
  | blank
  /-- Runs to the end of the line, its break included; `sign` is the length of what opens it. -/
  | lineComment (sign : Nat)
  | blockComment
deriving DecidableEq, Repr

structure Token where
  kind : TokenKind
  text : Text
deriving DecidableEq, Repr

namespace Token

def isSymbol (k : Token) (s : String) : Bool := k.kind == .symbol && k.text == s.toList

/-- Blanks and comments, which the grammar passes over. -/
def isSpace (k : Token) : Bool :=
  match k.kind with
  | .blank | .lineComment _ | .blockComment => true
  | _ => false

end Token

/-- Line and column of a character, both counted from 1. -/
structure Location where
  line : Nat := 1
  column : Nat := 1
deriving DecidableEq, Repr

namespace Location

def next (l : Location) (c : Char) : Location :=
  if c = '\n' then ⟨l.line + 1, 1⟩ else ⟨l.line, l.column + 1⟩

def past (l : Location) (t : Text) : Location := t.foldl next l

/-- The order of the text. -/
def isBefore (a b : Location) : Bool :=
  a.line < b.line || (a.line == b.line && a.column < b.column)

end Location

/-- A token and the location of its first character. -/
structure LocatedToken where
  token : Token
  location : Location
deriving DecidableEq, Repr

end HostSql.Sql
