import HostSql.Sql.Grammar.Call

/-! What an expression can start with: values, names, calls, and forms with a word or sign of their
own. -/
namespace HostSql.Sql.Grammar.Operand

/-- How strongly signs and `NOT` in front of an operand bind. -/
def signPrecedence : Nat := 40
def plusPrecedence : Nat := 30
def betweenPrecedence : Nat := 20
def notPrecedence : Nat := 15

/-- A type that the grammar knows and a string that is read as a value of it, or an interval. -/
def typedLiteral (g : Rules) : Parser Unit := do
  match ← g.type with
  | .interval => interval g
  | .named => fail
  | .builtin => stringLiteral

def caseWhen (g : Rules) : Parser Unit := do
  unless ← kw "WHEN" do
    g.expr
    needKw "WHEN"
  loop do
    g.expr
    needKw "THEN"
    g.expr
    kw "WHEN"
  after "ELSE" g.expr
  needKw "END"

def convert (g : Rules) : Parser Unit :=
  parens do
    if ← dialectIn [.msSql, .redshift] then
      g.needType
      needSym ","
      g.expr
      when (← sym ",") g.exprs
    else
      g.expr
      if ← kw "USING" then qualifiedName
      else
        needSym ","
        g.needType
        afterAll ["CHARACTER", "SET"] qualifiedName

def cast (g : Rules) : Parser Unit :=
  parens do
    g.expr
    needKw "AS"
    g.needType
    after "FORMAT" do
      value
      afterAll ["AT", "TIME", "ZONE"] value

def extract (g : Rules) : Parser Unit :=
  parens do
    let _ ← timeField
    unless ← kw "FROM" do
      require (← sym "," <&&> dialectIn [.snowflake, .generic])
    g.expr

/-- Rounding to a unit of time or to a number of places. -/
def rounding (g : Rules) : Parser Unit :=
  parens do
    g.expr
    if ← kw "TO" then
      let _ ← timeField
    else when (← sym ",") number

def positionIn (g : Rules) : Parser Unit :=
  parens do
    g.exprAbove betweenPrecedence
    needKw "IN"
    g.expr

def substring (g : Rules) : Parser Unit :=
  parens do
    g.expr
    when (← sym "," <||> kw "FROM") g.expr
    when (← kw "FOR" <||> sym ",") g.expr

def overlay (g : Rules) : Parser Unit :=
  parens do
    g.expr
    needKw "PLACING"
    g.expr
    needKw "FROM"
    g.expr
    after "FOR" g.expr

def trim (g : Rules) : Parser Unit :=
  parens do
    let _ ← anyKw ["BOTH", "LEADING", "TRAILING"]
    g.expr
    if ← kw "FROM" then g.expr
    else when (← sym "," <&&> dialectIn [.snowflake, .bigQuery, .generic]) g.exprs

/-- A search for words in columns. -/
def matchAgainst : Parser Unit := do
  nameList false
  needKw "AGAINST"
  parens do
    value
    if ← kws ["IN", "NATURAL", "LANGUAGE", "MODE"] then
      let _ ← kws ["WITH", "QUERY", "EXPANSION"]
    else unless ← kws ["IN", "BOOLEAN", "MODE"] do
      let _ ← kws ["WITH", "QUERY", "EXPANSION"]

/-- A structure with the types of its fields or their names. -/
def structLiteral (g : Rules) : Parser Unit := do
  let typed ← isSym "<"
  require !(← DataType.fields g)
  parens <| commas do
    g.expr
    after "AS" do
      require !typed
      name

/-- Keys and their values between braces. -/
def entries (key value : Parser Unit) : Parser Unit := do
  needSym "\x7b"
  commasUpTo "\x7d" do
    key
    needSym ":"
    value
  needSym "\x7d"

def lambda (g : Rules) : Parser Unit := do
  names
  needSym ")"
  needSym "->"
  g.expr

def lambdas : List Dialect := [.clickHouse, .databricks]

/-- Names with points between them, a call, or the one parameter of a lambda. -/
def named (g : Rules) (first : Item) : Parser Unit := do
  if (← isSym "(") || (← isSym ".") then
    if ← starredName then require (← dialectIn [.postgreSql])
    else when (← isSym "(") do
      let joins ← dialectIn [.snowflake, .msSql]
      if joins && (← peekAt 1).any (·.isSymbol "+") && (← peekAt 2).any (·.isSymbol ")") then
        skip
        skip
        skip
      else Call.parser g
  else if first.written.startsWith "_" && (← isNext fun i =>
      i.isString .single || i.isString .double || i.isString .special) then skip
  else when ((← isSym "->") && (← dialectIn lambdas)) do
    skip
    g.expr

def subquery (g : Rules) : Parser Unit := parens g.query

/-- An operand that starts with a word. Many words have a meaning only in some dialects or in front
of certain signs. -/
def word (g : Rules) (first : Item) : Parser Unit := do
  let plain := named g first
  let ifIn (ds : List Dialect) (p : Parser Unit) : Parser Unit := do
    if ← dialectIn ds then p else plain
  let arguments : Parser Unit := do
    when (← sym "(") do
      let _ ← Call.arguments g
  match if first.kind == .word then first.text else "" with
  | "TRUE" | "FALSE" | "NULL" => return
  | "CURRENT_CATALOG" | "CURRENT_USER" | "SESSION_USER" | "USER" =>
    ifIn [.postgreSql, .generic] (pure ())
  | "CURRENT_TIMESTAMP" | "CURRENT_TIME" | "CURRENT_DATE" | "LOCALTIME" | "LOCALTIMESTAMP" =>
    arguments
  | "CASE" => caseWhen g
  | "CONVERT" => convert g
  | "TRY_CONVERT" => ifIn [.msSql, .generic] (convert g)
  | "CAST" | "TRY_CAST" | "SAFE_CAST" => cast g
  | "EXISTS" =>
    if !(← dialectIn [.databricks]) || (← peekAt 1).any startsQuery then subquery g else plain
  | "EXTRACT" => extract g
  | "CEIL" | "FLOOR" => rounding g
  | "POSITION" =>
    if ← isSym "(" then
      unless ← succeeds (positionIn g) do Call.parser g
    else plain
  | "SUBSTRING" => substring g
  | "OVERLAY" => overlay g
  | "TRIM" => trim g
  | "INTERVAL" => interval g
  | "ARRAY" =>
    if ← sym "[" then
      commasUpTo "]" g.expr
      needSym "]"
    else if (← isSym "(") && !(← dialectIn [.clickHouse, .databricks]) then parens g.query
    else plain
  | "NOT" => if ← kw "EXISTS" then subquery g else g.exprAbove notPrecedence
  | "MATCH" => ifIn [.mySql, .generic] matchAgainst
  | "STRUCT" => ifIn [.bigQuery, .generic] (structLiteral g)
  | "PRIOR" => if (← get).connecting then g.exprAbove plusPrecedence else plain
  | "MAP" =>
    if (← isSym "\x7b") && (← dialectIn [.duckDb, .generic]) then entries g.expr g.expr else plain
  | _ => plain

/-- What parentheses enclose in an expression: a query, the parameters of a lambda, or one
expression or more. -/
def enclosed (g : Rules) : Parser Unit := do
  if ← isQueryAhead then
    g.query
    needSym ")"
  else unless ← dialectIn lambdas <&&> succeeds (lambda g) do
    g.exprs
    needSym ")"
  when (← sym ".") do require (← accept (·.isWord))

def symbol (g : Rules) (sign : String) : Parser Unit := do
  match sign with
  | "[" =>
    commasUpTo "]" g.expr
    needSym "]"
  | "+" | "-" => g.exprAbove signPrecedence
  | "!" =>
    require (← dialectIn [.hive])
    g.exprAbove notPrecedence
  | "!!" | "|/" | "||/" | "~" =>
    require (← dialectIn [.postgreSql])
    g.exprAbove plusPrecedence
  | "@" => if ← dialectIn [.postgreSql] then g.exprAbove plusPrecedence else parameter
  | ":" => parameter
  | "(" => enclosed g
  | _ => fail

def parser (g : Rules) : Parser Unit := do
  unless ← succeeds (typedLiteral g) do
    if (← isSym "\x7b") && (← dialectIn [.duckDb, .generic, .snowflake]) then entries name g.expr
    else
      let first ← next
      match first.kind with
      | .word | .quotedWord _ => word g first
      | .number | .placeholder => pure ()
      | .string .escaped => require (← dialectIn [.postgreSql, .generic])
      | .string _ => pure ()
      | .symbol => symbol g first.text
      | _ => fail
    after "COLLATE" qualifiedName

end HostSql.Sql.Grammar.Operand
