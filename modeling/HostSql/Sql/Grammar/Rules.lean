import HostSql.Sql.Grammar.Names

/-! The rules of the grammar that refer to one another. A rule that stands in a module of its own
takes them as an argument. -/
namespace HostSql.Sql.Grammar

inductive TypeKind where
  | builtin
  | interval
  /-- A name that the grammar does not know. -/
  | named
deriving DecidableEq, Repr

structure Rules where
  /-- An expression up to an operator that binds no more strongly than that. -/
  exprAbove : Nat → Parser Unit
  /-- What an expression starts with, up to its first binary operator. -/
  operand : Parser Unit
  query : Parser Unit
  /-- Selections joined by set operators that bind more strongly than that. -/
  selections : Nat → Parser Unit
  /-- A table or what stands for one; the result says if it is a join in parentheses. -/
  table : Parser Bool
  /-- A type; the result also says if its last angle bracket closes the type around it. -/
  typeIn : Parser (TypeKind × Bool)
  statement : Parser Unit

namespace Rules

def expr (g : Rules) : Parser Unit := g.exprAbove 0

def exprs (g : Rules) : Parser Unit := commas g.expr

/-- A type on its own. -/
def type (g : Rules) : Parser TypeKind := do
  let (kind, closesOuter) ← g.typeIn
  require !closesOuter
  return kind

def needType (g : Rules) : Parser Unit := do
  let _ ← g.type

end Rules

def startsQuery (i : Item) : Bool := ["SELECT", "WITH"].any i.isKeyword

def isQueryAhead : Parser Bool := isNext startsQuery

end HostSql.Sql.Grammar
