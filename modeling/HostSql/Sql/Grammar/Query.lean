import HostSql.Sql.Grammar.Table

/-! Queries: selections, set operators between them, and what may follow. -/
namespace HostSql.Sql.Grammar

namespace Select

def top (g : Rules) : Parser Unit := do
  if ← sym "(" then
    g.expr
    needSym ")"
  else literalNat
  let _ ← kw "PERCENT"
  let _ ← kws ["WITH", "TIES"]

def distinct (g : Rules) : Parser Unit := do
  let all ← kw "ALL"
  after "DISTINCT" do
    require !all
    after "ON" <| parens do unless ← isSym ")" do g.exprs

/-- What may follow a star: columns left out, replaced or renamed. -/
def starOptions (g : Rules) : Parser Unit := do
  let renamed : Parser Unit := do
    name
    needKw "AS"
    name
  let listOr (p : Parser Unit) : Parser Unit := do
    if ← isSym "(" then parens (commas p) else p
  let filtered ← do
    if ← dialectIn [.generic, .snowflake] <&&> kw "ILIKE" then
      quotedString
      pure true
    else pure false
  when (!filtered && (← dialectIn [.generic, .duckDb, .snowflake])) (after "EXCLUDE" (listOr name))
  when (← dialectIn [.generic, .bigQuery, .clickHouse, .databricks]) (after "EXCEPT" (listOr name))
  when (← dialectIn [.generic, .bigQuery, .clickHouse, .duckDb, .snowflake]) <|
    after "REPLACE" <| parens <| commas do
      g.expr
      let _ ← kw "AS"
      name
  when (← dialectIn [.generic, .snowflake]) (after "RENAME" (listOr renamed))

/-- A column of the result. The bare word `FROM` is none. -/
def item (g : Rules) : Parser Unit := do
  let start := (← get).ahead
  if ← exprOrStar g then starOptions g
  else
    let lone := (← get).ahead.length + 1 == start.length
    require !(lone && start.head?.any (·.isKeyword "FROM"))
    columnAlias

def items (g : Rules) : Parser Unit := commas (item g)

def lateralViews (g : Rules) : Parser Unit :=
  loop do
    if ← kws ["LATERAL", "VIEW"] then
      let _ ← kw "OUTER"
      g.expr
      qualifiedName
      commas do
        let _ ← otherName ["WHERE", "GROUP", "CLUSTER", "HAVING", "LATERAL"]
      return true
    return false

/-- Expressions in parentheses, which may be none; with `lone`, also one without parentheses. -/
def groupingSet (g : Rules) (lone : Bool) : Parser Unit := do
  if lone && !(← isSym "(") then g.expr
  else parens do unless ← isSym ")" do g.exprs

def grouping (g : Rules) : Parser Unit := do
  if ← dialectIn [.generic, .postgreSql, .duckDb, .databricks] then
    if ← kws ["GROUPING", "SETS"] then parens (commas (groupingSet g false))
    else if ← anyKw ["CUBE", "ROLLUP"] then parens (commas (groupingSet g true))
    else if (← isSym "(") && (← peekAt 1).any (·.isSymbol ")") then
      skip
      skip
    else g.expr
  else g.expr

def groupBy (g : Rules) : Parser Unit :=
  afterAll ["GROUP", "BY"] do
    unless ← kw "ALL" do commas (grouping g)
    when (← dialectIn [.clickHouse, .generic, .mySql]) <| loop do
      if ← kw "WITH" then
        let _ ← needKwIn ["ROLLUP", "CUBE", "TOTALS"]
        return true
      return false

def windows (g : Rules) : Parser Unit :=
  commas do
    name
    needKw "AS"
    if ← sym "(" then Call.window g
    else
      require (← dialectIn [.bigQuery, .generic])
      name

/-- How rows are connected to their parents, and where the trees start, in either order. -/
def connectBy (g : Rules) : Parser Unit := do
  let parents : Parser Unit := fun s =>
    match g.exprs { s with connecting := true } with
    | .ok (a, rest) => .ok (a, { rest with connecting := s.connecting })
    | .error e => .error e
  if ← kws ["CONNECT", "BY"] then
    parents
    needKws ["START", "WITH"]
    g.expr
  else
    needKws ["START", "WITH"]
    g.expr
    needKws ["CONNECT", "BY"]
    parents

/-- A selection behind the word `SELECT`. -/
def parser (g : Rules) : Parser Unit := do
  when (← dialectIn [.bigQuery]) <| after "AS" do
    let _ ← needKwIn ["VALUE", "STRUCT"]
  let topFirst ← dialectIn [.msSql, .redshift]
  when topFirst (after "TOP" (top g))
  distinct g
  unless topFirst do after "TOP" (top g)
  commasOr (← dialectIn [.duckDb, .bigQuery, .snowflake]) (item g)
  after "INTO" do
    let _ ← anyKw ["TEMP", "TEMPORARY"]
    let _ ← kw "UNLOGGED"
    let _ ← kw "TABLE"
    qualifiedName
  after "FROM" <| commas do
    let _ ← Table.joined g
  lateralViews g
  when (← dialectIn [.clickHouse, .generic]) (after "PREWHERE" g.expr)
  after "WHERE" g.expr
  groupBy g
  for clause in ["CLUSTER", "DISTRIBUTE", "SORT"] do
    afterAll [clause, "BY"] g.exprs
  after "HAVING" g.expr
  if ← kw "WINDOW" then
    windows g
    after "QUALIFY" g.expr
  else after "QUALIFY" do
    g.expr
    after "WINDOW" (windows g)
  when (← dialectIn [.generic, .msSql, .redshift, .snowflake]) do
    when ((← isKw "START") || (← isKw "CONNECT")) (connectBy g)

end Select

namespace Query

/-- A query with a name. -/
def common (g : Rules) : Parser Unit := do
  name
  unless ← kw "AS" do
    nameList false
    needKw "AS"
  when (← dialectIn [.postgreSql]) do
    unless ← kw "MATERIALIZED" do
      let _ ← kws ["NOT", "MATERIALIZED"]
  parens g.query
  after "FROM" name

/-- Three tokens are taken even if the name of the table is a single one. -/
def wholeTable : Parser Unit := do
  let ahead := (← get).ahead
  require (ahead.head?.any (·.isWord))
  when (ahead[1]?.any (·.isSymbol ".")) do require (ahead[2]?.any (·.isWord))
  modify fun s => { s with ahead := ahead.drop 3 }

/-- How strongly the set operator ahead binds; zero if there is none. -/
def setPrecedence : Parser Nat := do
  match ← peek with
  | some i =>
    if ["UNION", "EXCEPT"].any i.isKeyword then return 10
    else if i.isKeyword "INTERSECT" then return 20
    else return 0
  | none => return 0

def setQuantifier (union : Bool) : Parser Unit := do
  unless ← pure union <&&>
      (kws ["BY", "NAME"] <||> kws ["ALL", "BY", "NAME"] <||> kws ["DISTINCT", "BY", "NAME"]) do
    let _ ← anyKw ["ALL", "DISTINCT"]

/-- Selections joined by set operators that bind more strongly than `p`. -/
def selections (g : Rules) (p : Nat) : Parser Unit := do
  if ← kw "SELECT" then Select.parser g
  else if ← isSym "(" then parens g.query
  else if ← kw "VALUES" then Table.rows g (← dialectIn [.mySql])
  else
    needKw "TABLE"
    wholeTable
  loop do
    let ahead ← setPrecedence
    if ahead ≤ p then return false
    let union ← isKw "UNION"
    skip
    setQuantifier union
    g.selections ahead
    return true

def offset (g : Rules) : Parser Unit := do
  g.expr
  let _ ← anyKw ["ROW", "ROWS"]

/-- How many rows, behind the word `LIMIT`. The result says if a number is given. -/
def limit (g : Rules) : Parser Bool := do
  if ← kw "ALL" then return false
  g.expr
  return true

/-- Each of the two may come once, in either order; in some dialects a comma separates them, too. -/
def limitAndOffset (g : Rules) : Parser Unit := do
  let pairs ← dialectIn [.mySql, .generic, .clickHouse, .sqlite]
  let round (limited shifted : Bool) : Parser (Bool × Bool) := do
    let limited ← do if ← pure !limited <&&> kw "LIMIT" then limit g else pure limited
    let shifted ← do
      if ← pure !shifted <&&> kw "OFFSET" then
        offset g
        pure true
      else pure shifted
    if ← pure (pairs && limited && !shifted) <&&> sym "," then
      g.expr
      return (true, true)
    return (limited, shifted)
  let (limited, shifted) ← round false false
  let _ ← round limited shifted

def fetch : Parser Unit := do
  let _ ← needKwIn ["FIRST", "NEXT"]
  unless ← anyKw ["ROW", "ROWS"] do
    value
    let _ ← kw "PERCENT"
    let _ ← needKwIn ["ROW", "ROWS"]
  unless ← kw "ONLY" do needKws ["WITH", "TIES"]

def markupName : Parser Unit := do when (← isSym "(") (parens stringLiteral)

/-- The result as a document. -/
def document : Parser Bool := do
  if ← kw "BROWSE" then return true
  if ← kw "XML" then
    if ← anyKw ["RAW", "PATH"] then markupName
    else
      let _ ← needKwIn ["AUTO", "EXPLICIT"]
    loop do
      if ← sym "," then
        match ← kwIn ["TYPE", "ELEMENTS", "BINARY", "ROOT"] with
        | some "BINARY" => needKw "BASE64"
        | some "ROOT" => parens stringLiteral
        | some _ => pure ()
        | none => fail
        return true
      return false
    return true
  if ← kw "JSON" then
    let _ ← needKwIn ["AUTO", "PATH"]
    loop do
      if ← sym "," then
        if ← kw "ROOT" then parens stringLiteral
        else
          let _ ← needKwIn ["INCLUDE_NULL_VALUES", "WITHOUT_ARRAY_WRAPPER"]
        return true
      return false
    return true
  return false

/-- Locks on the rows, or one document. -/
def forClauses : Parser Unit :=
  loop do
    if ← kw "FOR" then
      if ← document then return false
      let _ ← needKwIn ["UPDATE", "SHARE"]
      after "OF" qualifiedName
      unless ← kw "NOWAIT" do
        let _ ← kws ["SKIP", "LOCKED"]
      return true
    return false

/-- Values that fill gaps in a sorted result. -/
def interpolation (g : Rules) : Parser Unit :=
  after "INTERPOLATE" do
    when (← sym "(") do
      commasUpTo ")" do
        name
        after "AS" g.expr
      needSym ")"

/-- What follows the selections. -/
def tail (g : Rules) : Parser Unit := do
  let extended ← dialectIn [.clickHouse, .generic]
  afterAll ["ORDER", "BY"] do
    g.sortKeys
    when extended (interpolation g)
  limitAndOffset g
  when extended (after "BY" g.exprs)
  let _ ← Table.settings
  after "FETCH" fetch
  forClauses
  when extended <| after "FORMAT" do unless ← kw "NULL" do name

/-- A query. In place of its selections it may have a change of a table. -/
def parser (g : Rules) (insert update : Parser Unit) : Parser Unit :=
  nested do
    after "WITH" do
      let _ ← kw "RECURSIVE"
      commas (common g)
    if ← kw "INSERT" then insert
    else if ← kw "UPDATE" then update
    else
      g.selections 0
      tail g

end Query
end HostSql.Sql.Grammar
