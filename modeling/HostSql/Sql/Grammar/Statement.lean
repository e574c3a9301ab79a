import HostSql.Sql.Grammar.Cursor
import HostSql.Sql.Grammar.Definition
import HostSql.Sql.Grammar.Transfer

/-! Statements of all kinds. -/
namespace HostSql.Sql.Grammar

namespace Show

/-- Which of the objects are shown. -/
def filter (g : Rules) : Parser Unit := do
  if ← anyKw ["LIKE", "ILIKE"] then stringLiteral
  else if ← kw "WHERE" then g.expr
  else
    let _ ← attempt stringLiteral

def place : Parser Unit := do when (← anyKw ["FROM", "IN"]) name

/-- Words of no fixed form, up to an equals sign. -/
def looseWords : Parser Unit :=
  loop do
    if (← atEnd) || (← isSym "=") then return false
    skip
    return true

/-- A statement behind the word `SHOW`. -/
def parser (g : Rules) : Parser Unit := do
  let extended ← kw "EXTENDED"
  let full ← kw "FULL"
  for word in ["SESSION", "GLOBAL"] do
    let _ ← kw word
  if ← anyKw ["COLUMNS", "FIELDS"] then
    let _ ← needKwIn ["FROM", "IN"]
    qualifiedName
    place
    filter g
  else if ← anyKw ["TABLES", "VIEWS"] <||> kws ["MATERIALIZED", "VIEWS"] then
    place
    filter g
  else if ← kw "FUNCTIONS" then filter g
  else
    require !(extended || full)
    match ← kwIn ["CREATE", "COLLATION", "VARIABLES", "STATUS", "DATABASES", "SCHEMAS"] with
    | some "CREATE" =>
      let _ ← needKwIn ["TABLE", "TRIGGER", "FUNCTION", "PROCEDURE", "EVENT", "VIEW"]
      qualifiedName
    | some "VARIABLES" | some "STATUS" =>
      if ← dialectIn [.mySql, .generic] then filter g else looseWords
    | some _ => filter g
    | none => looseWords

end Show

namespace Transaction

def isolationLevel : Parser Unit := do
  unless ← kws ["READ", "UNCOMMITTED"] <||> kws ["READ", "COMMITTED"] <||>
      kws ["REPEATABLE", "READ"] do needKw "SERIALIZABLE"

/-- Modes with or without commas between them. -/
def modes : Parser Unit := do
  let rec go : Nat → Bool → Parser Unit
    | 0, _ => fail
    | n + 1, required => do
      if ← kws ["ISOLATION", "LEVEL"] then
        isolationLevel
        go n (← sym ",")
      else if ← kws ["READ", "ONLY"] <||> kws ["READ", "WRITE"] then go n (← sym ",")
      else require !required
  go ((← get).ahead.length + 1) false

def ending : Parser Unit := do
  let _ ← anyKw ["TRANSACTION", "WORK"]
  after "AND" do
    let _ ← kw "NO"
    needKw "CHAIN"

end Transaction

namespace Settings

/-- The part of a statement behind the name of what is set. -/
def assigned (g : Rules) (several : Bool) : Parser Unit := do
  when several (needSym "(")
  loop do
    if ← isQueryAhead then g.query else g.expr
    sym ","
  when several (needSym ")")

/-- A statement behind the word `SET`. Some names have forms of their own. -/
def parser (g : Rules) : Parser Unit := do
  let modifier ← kwIn ["SESSION", "LOCAL", "HIVEVAR"]
  let role : Parser Unit := do
    needKw "ROLE"
    name
  if modifier == some "HIVEVAR" then needSym ":"
  else if ← succeeds role then return
  let start := (← get).ahead
  let zone ← kws ["TIME", "ZONE"]
  let several ← if zone then pure false else do
    if (← dialectIn [.snowflake]) && (← isSym "(") then
      nameList false
      pure true
    else
      qualifiedName
      pure false
  let whole := start.take (start.length - (← get).ahead.length)
  let written := if zone then "TIMEZONE" else match whole with
    | [i] => i.written
    | _ => ""
  let isName (s : String) := String.ofList (Text.upper written.toList) == s
  if isName "NAMES" && (← dialectIn [.mySql, .generic]) then
    unless ← kw "DEFAULT" do
      stringLiteral
      after "COLLATE" stringLiteral
  else if ← sym "=" <||> kw "TO" then assigned g several
  else if several then fail
  else if isName "TIMEZONE" then g.expr
  else if written == "CHARACTERISTICS" then
    needKws ["AS", "TRANSACTION"]
    Transaction.modes
  else
    require (written == "TRANSACTION" && modifier.isNone)
    if ← kw "SNAPSHOT" then value else Transaction.modes

end Settings

namespace Privilege

def actions : List String := [
  "CONNECT", "CREATE", "DELETE", "EXECUTE", "INSERT", "REFERENCES", "SELECT", "TEMPORARY", "TRIGGER",
  "TRUNCATE", "UPDATE", "USAGE"]

/-- What is allowed, on what. -/
def parser : Parser Unit := do
  if ← kw "ALL" then
    let _ ← kw "PRIVILEGES"
  else commas do
    match ← kwIn actions with
    | some action =>
      when (["INSERT", "REFERENCES", "SELECT", "UPDATE"].contains action) (nameListIfAny false)
    | none => fail
  needKw "ON"
  unless ← kws ["ALL", "TABLES", "IN", "SCHEMA"] <||> kws ["ALL", "SEQUENCES", "IN", "SCHEMA"] do
    let _ ← anyKw ["SEQUENCE", "SCHEMA", "TABLE"]
  commas qualifiedName

def grant : Parser Unit := do
  parser
  needKw "TO"
  names
  let _ ← kws ["WITH", "GRANT", "OPTION"]
  afterAll ["GRANTED", "BY"] name

def revoke : Parser Unit := do
  parser
  needKw "FROM"
  names
  afterAll ["GRANTED", "BY"] name
  dropBehavior

end Privilege

namespace Statement

/-- A plan or a table described. What is no statement is a table. -/
def explain (g : Rules) (word : String) : Parser Unit := do
  if word == "EXPLAIN" && (← isSym "(") && (← dialectIn [.postgreSql, .duckDb, .generic]) then
    parens <| commas do
      name
      unless (← isSym ",") || (← isSym ")") do g.expr
  else unless ← kws ["QUERY", "PLAN"] do
    let _ ← kw "ANALYZE"
    let _ ← kw "VERBOSE"
    after "FORMAT" do
      let _ ← needKwIn ["TEXT", "GRAPHVIZ", "JSON"]
  let again ← isNext fun i => ["DESC", "DESCRIBE", "EXPLAIN"].any i.isKeyword
  if ← succeeds g.statement then require !again
  else
    let _ ← anyKw ["EXTENDED", "FORMATTED"]
    when (← dialectIn [.snowflake, .clickHouse]) do
      let _ ← kw "TABLE"
    qualifiedName

def truncate (g : Rules) : Parser Unit := do
  let _ ← kw "TABLE"
  let _ ← kw "ONLY"
  commas qualifiedName
  after "PARTITION" (partition g)
  when (← dialectIn [.postgreSql, .generic]) do
    unless ← kws ["RESTART", "IDENTITY"] do
      let _ ← kws ["CONTINUE", "IDENTITY"]
    dropBehavior
  Create.onCluster

def analyze (g : Rules) : Parser Unit := do
  needKw "TABLE"
  qualifiedName
  loop do
    match ← kwIn ["PARTITION", "FOR", "CACHE", "NOSCAN", "COMPUTE"] with
    | some "PARTITION" => partition g
    | some "FOR" =>
      needKw "COLUMNS"
      let _ ← attempt names
    | some "CACHE" => needKw "METADATA"
    | some "COMPUTE" => needKw "STATISTICS"
    | some _ => pure ()
    | none => return false
    return true

def repairTable : Parser Unit := do
  let _ ← kw "REPAIR"
  needKw "TABLE"
  qualifiedName
  let _ ← attempt do
    let _ ← anyKw ["ADD", "DROP", "SYNC"]
    needKw "PARTITIONS"

/-- A table kept at hand, with options, or with the query that it holds. -/
def cacheTable (g : Rules) : Parser Unit := do
  unless ← kw "TABLE" do
    qualifiedName
    needKw "TABLE"
  qualifiedName
  optionsAfter g ["OPTIONS"]
  unless ← atEnd do
    let _ ← kw "AS"
    g.query

def use : Parser Unit := do
  unless ← dialectIn [.hive] <&&> kw "DEFAULT" do
    when (← dialectIn [.databricks]) do
      let _ ← anyKw ["CATALOG", "DATABASE", "SCHEMA"]
    when (← dialectIn [.snowflake]) do
      let _ ← anyKw ["DATABASE", "SCHEMA", "WAREHOUSE"]
    qualifiedName

def call (g : Rules) : Parser Unit := do
  qualifiedName
  when (← isSym "(") (Call.parser g)

def execute (g : Rules) : Parser Unit := do
  qualifiedName
  if ← isSym "(" then parens do unless ← isSym ")" do g.exprs
  else unless (← atEnd) || (← isSym ";") || (← isKw "USING") do g.exprs
  after "USING" g.exprs

def prepare (g : Rules) : Parser Unit := do
  name
  when (← isSym "(") (parens (commas g.needType))
  needKw "AS"
  g.statement

def kill : Parser Unit := do
  unless ← anyKw ["CONNECTION", "QUERY"] do
    when (← dialectIn [.clickHouse, .generic]) do
      let _ ← kw "MUTATION"
  literalNat

/-- A condition and the message for where it does not hold. -/
def assert (g : Rules) : Parser Unit := do
  g.expr
  after "AS" g.expr

def pragma : Parser Unit := do
  qualifiedName
  if ← isSym "(" then parens value else when (← sym "=") value

/-- Tables by their names and what is to be done with them. The first sign ends the list and is
passed over. -/
def flushedTables : Parser Unit :=
  loop do
    if ← isNext (·.isFreeWord) then
      commas qualifiedName
      return true
    let more ← isNext (·.isWord)
    skip
    return more

/-- Logs, tables and the like that are to be written out or read anew. -/
def flush : Parser Unit := do
  require (← dialectIn [.mySql, .generic])
  let _ ← anyKw ["NO_WRITE_TO_BINLOG", "LOCAL"]
  if ← anyKw ["BINARY", "ENGINE", "ERROR", "GENERAL", "SLOW"] then needKw "LOGS"
  else if ← kw "RELAY" then
    needKw "LOGS"
    afterAll ["FOR", "CHANNEL"] qualifiedName
  else if ← kw "TABLES" then flushedTables
  else
    let _ ← needKwIn ["HOSTS", "PRIVILEGES", "OPTIMIZER_COSTS", "STATUS", "USER_RESOURCES", "LOGS"]

def attachOption : Parser Unit := do
  if ← kw "READ_ONLY" then
    let _ ← anyKw ["TRUE", "FALSE"]
  else
    needKw "TYPE"
    name

/-- A database that is made known under a name. -/
def attach (g : Rules) : Parser Unit := do
  let _ ← kw "DATABASE"
  if ← dialectIn [.duckDb] then
    let _ ← ifNotExists
    name
    after "AS" name
    when (← isSym "(") (parens (commasOr false attachOption))
  else
    g.expr
    needKw "AS"
    name

def detach : Parser Unit := do
  require (← dialectIn [.duckDb, .generic])
  let _ ← kw "DATABASE"
  let _ ← ifExists
  name

/-- An extension that is installed or loaded. -/
def useExtension : Parser Unit := do
  require (← dialectIn [.duckDb, .generic])
  name

def optimize (g : Rules) : Parser Unit := do
  require (← dialectIn [.clickHouse, .generic])
  needKw "TABLE"
  qualifiedName
  Create.onCluster
  after "PARTITION" do if ← kw "ID" then name else g.expr
  let _ ← kw "FINAL"
  after "DEDUPLICATE" (after "BY" g.expr)

def comment : Parser Unit := do
  require (← dialectIn [.postgreSql])
  let _ ← ifExists
  needKw "ON"
  let _ ← needKwIn ["COLUMN", "TABLE", "EXTENSION"]
  qualifiedName
  needKw "IS"
  unless ← kw "NULL" do stringLiteral

/-- Tables with their aliases and the kinds of their locks. -/
def lockTables : Parser Unit := do
  needKw "TABLES"
  commas do
    name
    let _ ← otherName ["READ", "WRITE", "LOW_PRIORITY"]
    if ← kw "READ" then
      let _ ← kw "LOCAL"
    else unless ← kw "WRITE" do needKws ["LOW_PRIORITY", "WRITE"]

/-- A message to those that listen. -/
def notify : Parser Unit := do
  name
  when (← sym ",") stringLiteral

/-- What follows the first word of a statement. -/
def rest (g : Rules) (word : String) : Parser Unit := do
  match word with
  | "DESC" | "DESCRIBE" | "EXPLAIN" => explain g word
  | "ANALYZE" => analyze g
  | "TRUNCATE" => truncate g
  | "MSCK" => repairTable
  | "CREATE" => Create.parser g
  | "CACHE" => cacheTable g
  | "UNCACHE" =>
    needKw "TABLE"
    let _ ← ifExists
    qualifiedName
  | "DROP" => drop g
  | "ALTER" => Alter.parser g
  | "DELETE" => delete g
  | "INSERT" => Insert.parser g
  | "REPLACE" =>
    require (← dialectIn [.mySql, .generic, .sqlite])
    Insert.parser g
  | "UPDATE" => update g
  | "MERGE" => Merge.parser g
  | "CALL" => call g
  | "SET" => Settings.parser g
  | "SHOW" => Show.parser g
  | "USE" => use
  | "GRANT" => Privilege.grant
  | "REVOKE" => Privilege.revoke
  | "START" =>
    needKw "TRANSACTION"
    Transaction.modes
  | "BEGIN" =>
    when (← dialectIn [.sqlite, .generic]) do
      let _ ← anyKw ["DEFERRED", "IMMEDIATE", "EXCLUSIVE"]
    let _ ← anyKw ["TRANSACTION", "WORK"]
    Transaction.modes
  | "COMMIT" | "END" => Transaction.ending
  | "ROLLBACK" =>
    Transaction.ending
    after "TO" do
      let _ ← kw "SAVEPOINT"
      name
  | "SAVEPOINT" => name
  | "RELEASE" =>
    let _ ← kw "SAVEPOINT"
    name
  | "KILL" => kill
  | "DISCARD" =>
    let _ ← needKwIn ["ALL", "PLANS", "SEQUENCES", "TEMP", "TEMPORARY"]
  | "CLOSE" => name
  | "ASSERT" => assert g
  | "PRAGMA" => pragma
  | "DEALLOCATE" =>
    let _ ← kw "PREPARE"
    name
  | "EXECUTE" | "EXEC" => execute g
  | "PREPARE" => prepare g
  | "COPY" =>
    if ← dialectIn [.snowflake] <&&> kw "INTO" then Stage.copyInto else Copy.parser g
  | "UNLOAD" => unload g
  | "DECLARE" => Declare.parser g
  | "FETCH" => Fetch.parser
  | "FLUSH" => flush
  | "ATTACH" => attach g
  | "DETACH" => detach
  | "INSTALL" | "LOAD" => useExtension
  | "OPTIMIZE" => optimize g
  | "COMMENT" => comment
  | "LOCK" =>
    require (← dialectIn [.mySql])
    lockTables
  | "UNLOCK" =>
    require (← dialectIn [.mySql])
    needKw "TABLES"
  | "LISTEN" =>
    require (← dialectIn [.postgreSql])
    name
  | "NOTIFY" =>
    require (← dialectIn [.postgreSql])
    notify
  | _ => fail

def parser (g : Rules) : Parser Unit :=
  nested do
    if (← isQueryAhead) || (← isKw "VALUES") || (← isSym "(") then g.query
    else
      let first ← next
      require (first.kind == .word)
      rest g first.text

end Statement
end HostSql.Sql.Grammar
