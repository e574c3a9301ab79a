import HostSql.Sql.Grammar.Statement

/-! Which texts are SQL of a dialect. -/
namespace HostSql.Sql

namespace Grammar

/-- The rules, those that they refer to going `levels` deep. -/
def rules : (levels : Nat) → Rules
  | 0 => ⟨fun _ => fail, fail, fail, fun _ => fail, fail, fail, fail⟩
  | n + 1 =>
    let inner := rules n
    { exprAbove := exprAbove inner
      operand := Operand.parser inner
      query := Query.parser inner (Insert.parser inner) (update inner)
      selections := Query.selections inner
      table := Table.parser inner
      typeIn := DataType.parser inner
      statement := Statement.parser inner }

/-- How deep expressions, queries and statements may stand in one another. -/
def maxDepth : Nat := 50

/-- Statements with semicolons between them, and how many there are. The word `END` behind a statement
closes them all. -/
def statements (g : Rules) : Parser Nat := do
  let rec go : Nat → Nat → Parser Nat
    | 0, _ => fail
    | n + 1, count => do
      let separated ← separators
      let behind := 0 < count && !separated
      if (← atEnd) || (behind && (← isKw "END")) then return count
      require !behind
      g.statement
      go n (count + 1)
  go ((← get).ahead.length + 1) 0
where
  separators : Parser Bool := do
    let found ← isSym ";"
    loop (sym ";")
    return found

end Grammar

/-- The number of statements in a text; nothing if it is not SQL of the dialect. A rule refers to
another one behind a token of its own or one level deeper, which bounds the levels. -/
def statements? (d : Dialect) (t : Text) : Option Nat := do
  let ahead := Grammar.items ((← tokens? d t).map (·.token))
  let g := Grammar.rules (4 * (ahead.length + Grammar.maxDepth))
  match (Grammar.statements g).run { dialect := d, ahead, depth := Grammar.maxDepth } with
  | .ok (count, _) => some count
  | .error _ => none

end HostSql.Sql
