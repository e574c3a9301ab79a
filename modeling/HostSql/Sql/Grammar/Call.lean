import HostSql.Sql.Grammar.DataType

/-! Calls of functions: their arguments, and what may follow these. -/
namespace HostSql.Sql.Grammar

/-- The parts of a name in an expression, after its first one. A star may end them; the result says
if one did. -/
def starredName : Parser Bool :=
  repeatUntil do
    if ← sym "." then
      if ← sym "*" then return some true
      require (← accept fun i => i.isWord || i.isString .single)
      return none
    return some false

/-- An expression, or a star that stands for all columns or those of one table. The result says if
it is a star. -/
def exprOrStar (g : Rules) : Parser Bool := do
  if ← sym "*" then return true
  let start ← get
  if ← accept fun i => i.isWord || i.isString .single then
    if ← starredName then return true
  set start
  g.expr
  return false

namespace Rules

/-- An expression, its direction, and where nulls come. -/
def sortKey (g : Rules) : Parser Unit := do
  g.expr
  let _ ← anyKw ["ASC", "DESC"]
  unless ← kws ["NULLS", "FIRST"] do
    let _ ← kws ["NULLS", "LAST"]
  when (← dialectIn [.clickHouse, .generic]) <| afterAll ["WITH", "FILL"] do
    after "FROM" g.expr
    after "TO" g.expr
    after "STEP" g.expr

def sortKeys (g : Rules) : Parser Unit := commas g.sortKey

def orderBy (g : Rules) : Parser Unit := afterAll ["ORDER", "BY"] g.sortKeys

end Rules

namespace Call

def nullTreatment : Parser Bool := do
  if ← anyKw ["RESPECT", "IGNORE"] then
    needKw "NULLS"
    return true
  return false

def distinct : Parser Unit := do
  let all ← kw "ALL"
  let distinct ← kw "DISTINCT"
  require !(all && distinct)

/-- An argument, which may be named. -/
def argument (g : Rules) : Parser Unit := do
  let sign ← peekAt 1
  let signs :=
    (if ← dialectIn [.duckDb, .generic] then [":="] else []) ++
      (if ← dialectIn [.duckDb] then ["="] else []) ++ ["=>"]
  when (signs.any fun s => sign.any (·.isSymbol s)) do
    name
    skip
  let _ ← exprOrStar g

/-- What happens to a list that becomes too long. -/
def onOverflow (g : Rules) : Parser Unit :=
  afterAll ["ON", "OVERFLOW"] do
    unless ← kw "ERROR" do
      needKw "TRUNCATE"
      unless (← isKw "WITH") || (← isKw "WITHOUT") do
        require (← isNext fun i => match i.kind with
          | .string .double => false
          | .string _ => true
          | _ => false)
        g.expr
      let _ ← needKwIn ["WITH", "WITHOUT"]
      needKw "COUNT"

/-- Arguments behind the opening parenthesis, with the closing one. The result says if it is settled
among them how nulls are treated. -/
def arguments (g : Rules) : Parser Bool := do
  if ← sym ")" then return false
  distinct
  commas (argument g)
  let settled ← if ← dialectIn [.bigQuery, .snowflake, .generic] then nullTreatment else pure false
  g.orderBy
  after "LIMIT" g.expr
  when (← dialectIn [.generic, .bigQuery]) <| after "HAVING" do
    let _ ← needKwIn ["MIN", "MAX"]
    g.expr
  when (← dialectIn [.generic, .mySql]) (after "SEPARATOR" value)
  onOverflow g
  needSym ")"
  return settled

def frameBound (g : Rules) : Parser Unit := do
  unless ← kws ["CURRENT", "ROW"] do
    unless ← kw "UNBOUNDED" do
      if ← isNext (·.isString .single) then interval g else g.expr
    let _ ← needKwIn ["PRECEDING", "FOLLOWING"]

def frame (g : Rules) : Parser Unit := do
  let _ ← needKwIn ["ROWS", "RANGE", "GROUPS"]
  if ← kw "BETWEEN" then
    frameBound g
    needKw "AND"
    frameBound g
  else frameBound g

/-- The rows that a function sees, behind the opening parenthesis. -/
def window (g : Rules) : Parser Unit := do
  let _ ← accept (·.isFreeWord)
  afterAll ["PARTITION", "BY"] g.exprs
  g.orderBy
  unless ← sym ")" do
    frame g
    needSym ")"

def filters : List Dialect := [
  .generic, .postgreSql, .sqlite, .duckDb, .databricks, .hive]

/-- A call behind the name of the function. -/
def parser (g : Rules) : Parser Unit := do
  needSym "("
  if (← dialectIn [.snowflake]) && (← isQueryAhead) then
    g.query
    needSym ")"
  else
    let settled ← do
      let settled ← arguments g
      if ← dialectIn [.clickHouse, .generic] <&&> sym "(" then arguments g else pure settled
    afterAll ["WITHIN", "GROUP"] <| parens do
      needKws ["ORDER", "BY"]
      g.sortKeys
    when (← dialectIn filters) <| after "FILTER" do
      when (← sym "(") <| after "WHERE" do
        g.expr
        needSym ")"
    unless settled do
      let _ ← nullTreatment
    after "OVER" do
      if ← sym "(" then window g else name

end Call
end HostSql.Sql.Grammar
