import HostSql.Sql.Grammar.Query

/-! Cursors and variables: how they are declared, and how rows are fetched. -/
namespace HostSql.Sql.Grammar

namespace Declare

/-- The first value of a variable, if one is given. -/
def firstValue (g : Rules) : Parser Bool := do
  if ← kw "DEFAULT" <||> sym ":=" then
    g.expr
    return true
  return false

/-- Variables that share a type. -/
def alike (g : Rules) : Parser Unit := do
  names
  if ← kw "DEFAULT" then g.expr
  else
    g.needType
    after "DEFAULT" g.expr

/-- A cursor, a result, an exception or a variable. -/
def scripted (g : Rules) : Parser Unit := do
  name
  if ← kw "CURSOR" then
    needKw "FOR"
    if ← isKw "SELECT" then g.query else g.expr
  else if ← kw "RESULTSET" then
    let _ ← firstValue g
  else if ← kw "EXCEPTION" then when (← isSym "(") g.expr
  else unless ← firstValue g do
    when (← isNext (·.isWord)) do
      g.needType
      let _ ← firstValue g

/-- Declarations with semicolons between them, for as long as a name follows. -/
def script (g : Rules) : Parser Unit :=
  loop do
    scripted g
    if (← isSym ";") && (← peekAt 1).any (·.isFreeWord) then
      skip
      return true
    return false

/-- A variable whose name begins with an at sign. -/
def marked (g : Rules) : Parser Unit := do
  require (← accept fun i => isName i && i.written.startsWith "@")
  unless ← kw "CURSOR" do
    let _ ← kw "AS"
    g.needType
  when (← sym "=") g.expr

def cursor (g : Rules) : Parser Unit := do
  name
  let _ ← kw "BINARY"
  let _ ← anyKw ["INSENSITIVE", "ASENSITIVE"]
  unless ← kw "SCROLL" do
    let _ ← kws ["NO", "SCROLL"]
  needKw "CURSOR"
  when (← anyKw ["WITH", "WITHOUT"]) (needKw "HOLD")
  needKw "FOR"
  g.query

/-- A statement behind the word `DECLARE`. -/
def parser (g : Rules) : Parser Unit := do
  match (← get).dialect with
  | .bigQuery => alike g
  | .snowflake => script g
  | .msSql => commas (marked g)
  | _ => cursor g

end Declare

namespace Fetch

/-- A number of rows, or a parameter in its place. -/
def count : Parser Unit := do
  let i ← next
  match i.kind with
  | .number | .placeholder => return
  | .symbol => if i.text == ":" || i.text == "@" then parameter else fail
  | _ => fail

/-- A statement behind the word `FETCH`. -/
def parser : Parser Unit := do
  match ← kwIn ["NEXT", "PRIOR", "FIRST", "LAST", "ABSOLUTE", "RELATIVE", "FORWARD", "BACKWARD",
      "ALL"] with
  | some "ABSOLUTE" | some "RELATIVE" | none => count
  | some "FORWARD" | some "BACKWARD" => unless ← kw "ALL" do count
  | some _ => pure ()
  let _ ← needKwIn ["FROM", "IN"]
  name
  after "INTO" qualifiedName

end Fetch
end HostSql.Sql.Grammar
