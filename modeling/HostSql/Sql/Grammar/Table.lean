import HostSql.Sql.Grammar.Operator

/-! Tables and what stands for them behind `FROM`. -/
namespace HostSql.Sql.Grammar.Table

/-- Rows of values. -/
def rows (g : Rules) (mayBeEmpty : Bool) : Parser Unit :=
  commas do
    let _ ← kw "ROW"
    parens do unless mayBeEmpty && (← isSym ")") do g.exprs

/-- A query behind its opening parenthesis, with its alias. -/
def derived (g : Rules) : Parser Unit := do
  g.query
  needSym ")"
  tableAlias

def aliasedCall (g : Rules) : Parser Unit := do
  require (← accept (·.isWord))
  Call.parser g
  after "AS" name

/-- Rows turned into columns. -/
def pivot (g : Rules) : Parser Unit := do
  parens do
    commas (aliasedCall g)
    needKw "FOR"
    qualifiedName
    needKw "IN"
    parens do
      if ← kw "ANY" then g.orderBy
      else if ← isQueryAhead then g.query
      else commas do
        g.expr
        after "AS" name
    afterAll ["DEFAULT", "ON", "NULL"] (parens g.expr)
  tableAlias

/-- Columns turned into rows. -/
def unpivot : Parser Unit := do
  parens do
    name
    needKw "FOR"
    name
    needKw "IN"
    nameList false
  tableAlias

def pivots (g : Rules) : Parser Unit :=
  loop do
    if ← kw "PIVOT" then
      pivot g
      return true
    if ← kw "UNPIVOT" then
      unpivot
      return true
    return false

def settings : Parser Bool := do
  if ← dialectIn [.clickHouse, .generic] <&&> kw "SETTINGS" then
    commas do
      name
      needSym "="
      value
    return true
  return false

/-- Arguments of a function that gives a table, behind the opening parenthesis. -/
def arguments (g : Rules) : Parser Unit := do
  unless ← sym ")" do
    commas do unless ← settings do Call.argument g
    needSym ")"

/-- A table by its name, or a function that gives a table. -/
def named (g : Rules) : Parser Unit := do
  tableName
  when (← dialectIn [.mySql, .generic]) (after "PARTITION" (nameList false))
  when (← dialectIn [.bigQuery, .msSql]) (afterAll ["FOR", "SYSTEM_TIME", "AS", "OF"] g.expr)
  when (← sym "(") (arguments g)
  let _ ← kws ["WITH", "ORDINALITY"]
  tableAlias
  when ((← isKw "WITH") && (← peekAt 1).any (·.isSymbol "(")) do
    skip
    parens g.exprs
  pivots g

def unnest (g : Rules) : Parser Unit := do
  parens g.exprs
  let _ ← kws ["WITH", "ORDINALITY"]
  tableAlias
  afterAll ["WITH", "OFFSET"] columnAlias

def joinCondition (g : Rules) (natural : Bool) : Parser Unit := do
  unless natural do
    if ← kw "ON" then g.expr
    else after "USING" (nameList false)

/-- What kind of join is ahead, if any. -/
inductive JoinKind where
  | unconditional
  | conditional (natural : Bool)
  | nearest

def joinKind? : Parser (Option JoinKind) := do
  if ← kw "CROSS" then
    let _ ← needKwIn ["JOIN", "APPLY"]
    return some .unconditional
  if ← kw "OUTER" then
    needKw "APPLY"
    return some .unconditional
  if ← kw "ASOF" then
    needKw "JOIN"
    return some .nearest
  let natural ← kw "NATURAL"
  match ← kwIn ["INNER", "JOIN", "LEFT", "RIGHT", "FULL"] with
  | some "JOIN" => return some (.conditional natural)
  | some "INNER" =>
    needKw "JOIN"
    return some (.conditional natural)
  | some "FULL" =>
    let _ ← kw "OUTER"
    needKw "JOIN"
    return some (.conditional natural)
  | some _ =>
    unless ← kw "JOIN" do
      let _ ← needKwIn ["OUTER", "SEMI", "ANTI"]
      needKw "JOIN"
    return some (.conditional natural)
  | none =>
    require !natural
    return none

/-- Joins behind a table. The result says if there are any. -/
def joins (g : Rules) : Parser Bool := do
  let start := (← get).ahead.length
  loop do
    let _ ← kw "GLOBAL"
    match ← joinKind? with
    | none => return false
    | some kind =>
      let _ ← g.table
      match kind with
      | .unconditional => pure ()
      | .conditional natural => joinCondition g natural
      | .nearest =>
        needKw "MATCH_CONDITION"
        parens g.expr
        joinCondition g false
      return true
  return (← get).ahead.length < start

/-- A table and its joins. The result says if it is more than one lone table. -/
def joined (g : Rules) : Parser Bool := do
  let nested ← g.table
  let more ← joins g
  return nested || more

/-- What parentheses enclose in the place of a table: a query, or a join. Some dialects also take one
table, which may have an alias inside or outside. -/
def enclosed (g : Rules) : Parser Bool := do
  if ← succeeds (derived g) then
    pivots g
    return false
  let isJoin ← joined g
  require (isJoin || (← dialectIn [.snowflake, .generic]))
  needSym ")"
  tableAlias
  return isJoin

def parser (g : Rules) : Parser Bool := do
  if ← kw "LATERAL" then
    if ← sym "(" then derived g
    else
      qualifiedName
      parens do unless ← isSym ")" do commas (Call.argument g)
      tableAlias
    return false
  if ← kw "TABLE" then
    parens g.expr
    tableAlias
    return false
  if ← sym "(" then return ← enclosed g
  if (← dialectIn [.snowflake, .databricks, .generic]) && (← isKw "VALUES") &&
      (← peekAt 1).any (·.isSymbol "(") then
    skip
    rows g false
    tableAlias
    return false
  if ← dialectIn [.bigQuery, .postgreSql, .generic] <&&> kw "UNNEST" then
    unnest g
    return false
  named g
  return false

end HostSql.Sql.Grammar.Table
