import HostSql.Sql.Grammar.Change
import HostSql.Sql.Grammar.Stage

/-! Statements that make, alter and drop tables, views and the like. -/
namespace HostSql.Sql.Grammar

namespace Column

def referentialAction : Parser Unit := do
  unless ← anyKw ["RESTRICT", "CASCADE"] <||> kws ["SET", "NULL"] <||> kws ["NO", "ACTION"] do
    needKws ["SET", "DEFAULT"]

/-- When a constraint is checked, each aspect at most once. -/
def characteristics : Parser Unit := do
  let rec go : Nat → Bool → Bool → Bool → Parser Unit
    | 0, _, _, _ => pure ()
    | n + 1, deferrable, initially, enforced => do
      if ← pure !deferrable <&&> (kws ["NOT", "DEFERRABLE"] <||> kw "DEFERRABLE") then
        go n true initially enforced
      else if ← pure !initially <&&> kw "INITIALLY" then
        let _ ← needKwIn ["DEFERRED", "IMMEDIATE"]
        go n deferrable true enforced
      else if ← pure !enforced <&&> (kw "ENFORCED" <||> kws ["NOT", "ENFORCED"]) then
        go n deferrable initially true
  go 4 false false false

/-- What happens to a row whose reference goes away or changes. -/
def referenceActions : Parser Unit := do
  let one (seen : Bool) (event : String) : Parser Bool := do
    if ← pure !seen <&&> kws ["ON", event] then
      referentialAction
      return true
    return seen
  let deleted ← one false "DELETE"
  let updated ← one false "UPDATE"
  let _ ← one deleted "DELETE"
  let _ ← one updated "UPDATE"

def sequenceOptions (g : Rules) : Parser Unit :=
  loop do
    if ← kw "INCREMENT" then
      let _ ← kw "BY"
      g.expr
      return true
    if ← anyKw ["MINVALUE", "MAXVALUE"] then
      g.expr
      return true
    if ← kw "START" then
      let _ ← kw "WITH"
      g.expr
      return true
    if ← kw "CACHE" then
      g.expr
      return true
    kws ["NO", "MINVALUE"] <||> kws ["NO", "MAXVALUE"] <||> kws ["NO", "CYCLE"] <||> kw "CYCLE"

def storedOrVirtual : Parser Unit := do
  let _ ← anyKw ["STORED", "VIRTUAL"]

/-- Where the value of a generated column comes from. -/
def generated (g : Rules) : Parser Unit := do
  if ← kws ["ALWAYS", "AS", "IDENTITY"] <||> kws ["BY", "DEFAULT", "AS", "IDENTITY"] then
    when (← isSym "(") (parens (sequenceOptions g))
  else
    needKws ["ALWAYS", "AS"]
    parens g.expr
    if ← dialectIn [.postgreSql] then needKw "STORED" else storedOrVirtual

def inlineComment : Parser Unit := do
  let _ ← sym "="
  quotedString

/-- One property of a column, if one is ahead. -/
def option? (g : Rules) : Parser Bool := do
  let found (p : Parser Unit) : Parser Bool := do
    p
    return true
  if ← kws ["CHARACTER", "SET"] then return ← found qualifiedName
  if ← kws ["NOT", "NULL"] then return true
  if ← kw "COMMENT" then return ← found quotedString
  if ← kw "NULL" then return true
  if ← kw "DEFAULT" then return ← found g.expr
  if ← dialectIn [.clickHouse, .generic] <&&> anyKw ["MATERIALIZED", "ALIAS"] then
    return ← found g.expr
  if ← dialectIn [.clickHouse, .generic] <&&> kw "EPHEMERAL" then
    return ← found do unless (← isSym ",") || (← isSym ")") do g.expr
  if ← kws ["PRIMARY", "KEY"] <||> kw "UNIQUE" then return ← found characteristics
  if ← kw "REFERENCES" then
    return ← found do
      qualifiedName
      nameListIfAny false
      referenceActions
      characteristics
  if ← kw "CHECK" then return ← found (parens g.expr)
  if ← dialectIn [.mySql, .generic] <&&> kw "AUTO_INCREMENT" then return true
  if ← dialectIn [.sqlite, .generic] <&&> kw "AUTOINCREMENT" then return true
  if ← dialectIn [.mySql, .generic] <&&> kws ["ON", "UPDATE"] then return ← found g.expr
  if ← kw "GENERATED" then return ← found (generated g)
  if ← dialectIn [.bigQuery, .generic] <&&> kw "OPTIONS" then return ← found (optionList g)
  if ← dialectIn [.mySql, .sqlite, .duckDb, .generic] <&&> kw "AS" then
    return ← found do
      parens g.expr
      storedOrVirtual
  if ← dialectIn [.msSql, .generic, .snowflake] <&&> kw "IDENTITY" then
    return ← found do
      when (← isSym "(") <| parens do
        number
        needSym ","
        number
  if ← dialectIn [.sqlite, .generic] <&&> kws ["ON", "CONFLICT"] then
    return ← found do
      let _ ← needKwIn ["ROLLBACK", "ABORT", "FAIL", "IGNORE", "REPLACE"]
  return false

def options (g : Rules) : Parser Unit :=
  loop do
    if ← kw "CONSTRAINT" then
      name
      require (← option? g)
      return true
    if ← option? g then return true
    if ← dialectIn [.mySql, .snowflake, .generic] <&&> kw "COLLATE" then
      qualifiedName
      return true
    return false

/-- Properties that can follow the name of a column whose type is left out. -/
def startsProperty (i : Item) : Bool :=
  ["CONSTRAINT", "PRIMARY", "NOT", "UNIQUE", "CHECK", "DEFAULT", "COLLATE", "REFERENCES", "GENERATED",
    "AS"].any i.isKeyword

def parser (g : Rules) : Parser Unit := do
  name
  let untyped ← do
    if ← dialectIn [.sqlite] then
      pure (match ← peek with
        | some i => !i.isWord || startsProperty i
        | none => true)
    else pure false
  unless untyped do g.needType
  after "COLLATE" qualifiedName
  options g

end Column

namespace Constraint

def indexKind : Parser Unit := do
  let _ ← needKwIn ["BTREE", "HASH"]

def indexOptions : Parser Unit :=
  loop do
    if ← kw "USING" then
      indexKind
      return true
    if ← kw "COMMENT" then
      quotedString
      return true
    return false

def nameIfAny : Parser Unit := do
  let _ ← accept isName

def keyColumns : Parser Unit := do
  nameIfAny
  after "USING" indexKind
  nameList false
  indexOptions
  Column.characteristics

/-- A constraint of a table, if one is ahead. -/
def parser? (g : Rules) : Parser Bool := do
  let named ← kw "CONSTRAINT"
  when named name
  match ← kwIn ["UNIQUE", "PRIMARY", "FOREIGN", "CHECK"] with
  | some "UNIQUE" =>
    when (← anyKw ["KEY", "INDEX"]) do require (← dialectIn [.generic, .mySql])
    when (← kw "NULLS") do
      let _ ← kw "NOT"
      needKw "DISTINCT"
    keyColumns
    return true
  | some "PRIMARY" =>
    needKw "KEY"
    keyColumns
    return true
  | some "FOREIGN" =>
    needKw "KEY"
    nameList false
    needKw "REFERENCES"
    qualifiedName
    nameList false
    Column.referenceActions
    Column.characteristics
    return true
  | some _ =>
    parens g.expr
    return true
  | none =>
    require !named
    if ← dialectIn [.generic, .mySql] then
      if ← anyKw ["INDEX", "KEY"] then
        unless ← isKw "USING" do nameIfAny
        after "USING" indexKind
        nameList false
        return true
      if ← anyKw ["FULLTEXT", "SPATIAL"] then
        let _ ← anyKw ["KEY", "INDEX"]
        nameIfAny
        nameList false
        return true
    return false

end Constraint

namespace Create

/-- Columns and constraints, if there are any. -/
def columns (g : Rules) : Parser Unit := do
  let trailing ← allowsTrailingCommas
  when (← sym "(") do
    unless ← sym ")" do
      loop do
        unless ← Constraint.parser? g do
          require (← isNext (·.isWord))
          Column.parser g
        let comma ← sym ","
        let closed ← isSym ")"
        require (comma || closed)
        if closed && (!comma || trailing) then
          skip
          return false
        return true

def onCluster : Parser Unit := afterAll ["ON", "CLUSTER"] name

/-- How the fields of a row are told apart in a file. -/
def rowFormat : Parser Unit := do
  needKw "FORMAT"
  if ← kw "SERDE" then stringLiteral
  else
    needKw "DELIMITED"
    loop do
      if ← kws ["FIELDS", "TERMINATED", "BY"] then
        name
        afterAll ["ESCAPED", "BY"] name
        return true
      if ← kws ["COLLECTION", "ITEMS", "TERMINATED", "BY"] <||>
          kws ["MAP", "KEYS", "TERMINATED", "BY"] <||> kws ["LINES", "TERMINATED", "BY"] <||>
          kws ["NULL", "DEFINED", "AS"] then
        name
        return true
      return false

/-- Where and how a table is stored. -/
def storage (g : Rules) : Parser Unit :=
  loop do
    if ← kw "ROW" then
      rowFormat
      return true
    if ← kw "STORED" then
      needKw "AS"
      if ← kw "INPUTFORMAT" then
        g.expr
        needKw "OUTPUTFORMAT"
        g.expr
      else fileFormat
      return true
    if ← kw "LOCATION" then
      stringLiteral
      return true
    if ← kws ["WITH", "SERDEPROPERTIES"] then
      optionList g
      return true
    return false

/-- By which columns a table is divided, sorted and put into buckets. -/
def distribution (g : Rules) : Parser Unit := do
  afterAll ["PARTITIONED", "BY"] (parens (commas (Column.parser g)))
  afterAll ["CLUSTERED", "BY"] do
    nameList false
    afterAll ["SORTED", "BY"] (parens g.sortKeys)
    needKw "INTO"
    number
    needKw "BUCKETS"

def word : Parser Unit := do require (← accept (·.isWord))

def engine : Parser Unit := do
  needSym "="
  word
  nameListIfAny true

/-- Settings of a table behind its columns. -/
def tableOptions (g : Rules) : Parser Unit := do
  optionsAfter g ["WITH"]
  optionsAfter g ["TBLPROPERTIES"]
  after "ENGINE" engine
  after "AUTO_INCREMENT" do
    let _ ← sym "="
    number
  when (← dialectIn [.clickHouse, .generic]) (afterAll ["PRIMARY", "KEY"] g.expr)
  afterAll ["ORDER", "BY"] do
    if ← isSym "(" then parens do unless ← isSym ")" do g.exprs
    else g.expr
  when (← dialectIn [.bigQuery, .postgreSql, .generic]) (afterAll ["PARTITION", "BY"] g.expr)
  when (← dialectIn [.bigQuery, .generic]) do
    afterAll ["CLUSTER", "BY"] names
    optionsAfter g ["OPTIONS"]
  afterAll ["DEFAULT", "CHARSET"] do
    needSym "="
    word
  after "COLLATE" do
    needSym "="
    word
  afterAll ["ON", "COMMIT"] do
    unless ← kws ["DELETE", "ROWS"] <||> kws ["PRESERVE", "ROWS"] do needKw "DROP"
  let _ ← kw "STRICT"

def table (g : Rules) : Parser Unit := do
  let _ ← ifNotExists
  tableName
  onCluster
  when (← anyKw ["LIKE", "ILIKE"]) tableName
  after "CLONE" tableName
  columns g
  let hive ← dialectIn [.hive]
  when hive (after "COMMENT" quotedString)
  let _ ← kws ["WITHOUT", "ROWID"]
  distribution g
  storage g
  tableOptions g
  unless hive do after "COMMENT" Column.inlineComment
  after "AS" g.query

def externalTable (g : Rules) : Parser Unit := do
  needKw "TABLE"
  let _ ← ifNotExists
  qualifiedName
  columns g
  distribution g
  storage g
  optionsAfter g ["TBLPROPERTIES"]

def viewColumn (g : Rules) : Parser Unit := do
  name
  when (← dialectIn [.bigQuery, .generic]) (optionsAfter g ["OPTIONS"])
  when (← dialectIn [.snowflake, .generic]) (after "COMMENT" quotedString)
  when (← dialectIn [.clickHouse]) g.needType

def view (g : Rules) : Parser Unit := do
  when (← dialectIn [.bigQuery, .sqlite, .generic]) do
    let _ ← ifNotExists
  tableName
  when (← isSym "(") (parens do unless ← isSym ")" do commas (viewColumn g))
  optionsAfter g ["WITH"]
  after "CLUSTER" do
    needKw "BY"
    nameListIfAny false
  when (← dialectIn [.bigQuery, .generic]) (optionsAfter g ["OPTIONS"])
  when (← dialectIn [.clickHouse, .generic]) (after "TO" qualifiedName)
  when (← dialectIn [.snowflake, .generic]) <| after "COMMENT" do
    needSym "="
    quotedString
  needKw "AS"
  g.query
  when (← dialectIn [.redshift, .generic]) do
    let _ ← kws ["WITH", "NO", "SCHEMA", "BINDING"]

def index (g : Rules) : Parser Unit := do
  let _ ← kw "CONCURRENTLY"
  let quiet ← ifNotExists
  unless ← pure !quiet <&&> kw "ON" do
    qualifiedName
    needKw "ON"
  qualifiedName
  after "USING" name
  parens g.sortKeys
  after "INCLUDE" (nameList false)
  after "NULLS" do
    let _ ← kw "NOT"
    needKw "DISTINCT"
  when (← dialectIn [.postgreSql, .generic]) (after "WITH" (parens g.exprs))
  after "WHERE" g.expr

def schema : Parser Unit := do
  let _ ← ifNotExists
  if ← kw "AUTHORIZATION" then name
  else
    qualifiedName
    after "AUTHORIZATION" name

def database : Parser Unit := do
  let _ ← ifNotExists
  qualifiedName
  loop do
    if ← anyKw ["LOCATION", "MANAGEDLOCATION"] then
      stringLiteral
      return true
    return false

/-- The class that implements a function, and the file that it is in. -/
def function : Parser Unit := do
  require (← dialectIn [.hive])
  qualifiedName
  needKw "AS"
  name
  after "USING" do
    let _ ← needKwIn ["JAR", "FILE", "ARCHIVE"]
    stringLiteral

def sequence (g : Rules) : Parser Unit := do
  let _ ← ifNotExists
  qualifiedName
  after "AS" g.needType
  Column.sequenceOptions g

def extension : Parser Unit := do
  let _ ← ifNotExists
  name
  when (← kw "WITH") do
    after "SCHEMA" name
    after "VERSION" name
    let _ ← kw "CASCADE"

/-- A definition behind the word `CREATE`. -/
def parser (g : Rules) : Parser Unit := do
  let replace ← kws ["OR", "REPLACE"]
  let _ ← kws ["OR", "ALTER"]
  for word in ["LOCAL", "GLOBAL", "TRANSIENT"] do
    let _ ← kw word
  let _ ← anyKw ["TEMP", "TEMPORARY"]
  when (← dialectIn [.duckDb]) do
    let _ ← kw "PERSISTENT"
  if ← kw "TABLE" then table g
  else if ← kws ["MATERIALIZED", "VIEW"] then view g
  else if ← kw "VIEW" then view g
  else if ← kw "EXTERNAL" then externalTable g
  else if ← kw "FUNCTION" then function
  else if ← dialectIn [.snowflake] <&&> kw "STAGE" then Stage.create
  else
    require !replace
    match ← kwIn ["EXTENSION", "INDEX", "UNIQUE", "SCHEMA", "DATABASE", "ROLE", "SEQUENCE", "TYPE"] with
    | some "EXTENSION" => extension
    | some "INDEX" => index g
    | some "UNIQUE" =>
      needKw "INDEX"
      index g
    | some "SCHEMA" => schema
    | some "DATABASE" => database
    | some "ROLE" =>
      let _ ← ifNotExists
      commas qualifiedName
    | some "SEQUENCE" => sequence g
    | some _ =>
      qualifiedName
      needKw "AS"
      if ← dialectIn [.postgreSql] <&&> kw "ENUM" then parens (commasUpTo ")" name)
      else parens <| commas do
        name
        g.needType
        after "COLLATE" qualifiedName
    | none => fail

end Create

/-- What else goes with it. -/
def dropBehavior : Parser Unit := do
  let _ ← anyKw ["CASCADE", "RESTRICT"]

/-- A statement behind the word `DROP`. -/
def drop (g : Rules) : Parser Unit := do
  when (← dialectIn [.mySql, .generic, .duckDb]) do
    let _ ← kw "TEMPORARY"
  when (← dialectIn [.duckDb]) do
    let _ ← kw "PERSISTENT"
  match ← kwIn ["TABLE", "VIEW", "INDEX", "ROLE", "SCHEMA", "DATABASE", "SEQUENCE", "STAGE", "TYPE",
      "FUNCTION", "PROCEDURE"] with
  | some "FUNCTION" | some "PROCEDURE" =>
    let _ ← ifExists
    commas do
      qualifiedName
      when (← isSym "(") (parens do unless ← isSym ")" do commas g.needType)
    dropBehavior
  | some kind =>
    let _ ← ifExists
    commas qualifiedName
    let cascade ← kw "CASCADE"
    let restrict ← kw "RESTRICT"
    let purge ← kw "PURGE"
    require !(cascade && restrict)
    require !(kind == "ROLE" && (cascade || restrict || purge))
  | none => fail

namespace Alter

def position : Parser Unit := do
  when (← dialectIn [.mySql, .generic]) do unless ← kw "FIRST" do after "AFTER" name

def add (g : Rules) : Parser Unit := do
  unless ← Constraint.parser? g do
    let _ ← ifNotExists
    if ← kw "PARTITION" then
      partition g
      loop do
        if ← kw "PARTITION" then
          partition g
          return true
        return false
    else
      let _ ← kw "COLUMN"
      when (← dialectIn [.postgreSql, .bigQuery, .duckDb, .generic]) do
        let _ ← ifNotExists
      Column.parser g
      position

def rename : Parser Unit := do
  if ← dialectIn [.postgreSql] <&&> kw "CONSTRAINT" then
    name
    needKw "TO"
    name
  else if ← kw "TO" then qualifiedName
  else
    let _ ← kw "COLUMN"
    name
    needKw "TO"
    name

def dropPart (g : Rules) : Parser Unit := do
  if ← kws ["IF", "EXISTS", "PARTITION"] <||> kw "PARTITION" then partition g
  else if ← kw "CONSTRAINT" then
    let _ ← ifExists
    name
    dropBehavior
  else unless ← dialectIn [.mySql, .generic] <&&> kws ["PRIMARY", "KEY"] do
    let _ ← kw "COLUMN"
    let _ ← ifExists
    name
    let _ ← kw "CASCADE"

def columnOptions (g : Rules) : Parser Unit := loop (Column.option? g)

def column (g : Rules) : Parser Unit := do
  let _ ← kw "COLUMN"
  name
  let postgres ← dialectIn [.postgreSql]
  unless ← kws ["SET", "NOT", "NULL"] <||> kws ["DROP", "NOT", "NULL"] <||>
      kws ["DROP", "DEFAULT"] do
    if ← kws ["SET", "DEFAULT"] then g.expr
    else
      unless ← pure postgres <&&> kw "TYPE" do needKws ["SET", "DATA", "TYPE"]
      g.needType
      when postgres (after "USING" g.expr)

def switch : Parser Unit := do
  unless ← kws ["ROW", "LEVEL", "SECURITY"] do
    let _ ← anyKw ["ALWAYS", "REPLICA"]
    let _ ← needKwIn ["RULE", "TRIGGER"]
    name

/-- One change of a table. -/
def operation (g : Rules) : Parser Unit := do
  match ← kwIn ["ADD", "RENAME", "DISABLE", "ENABLE", "DROP", "PARTITION", "CHANGE", "MODIFY", "ALTER",
      "SWAP", "OWNER", "SET"] with
  | some "ADD" => add g
  | some "RENAME" => rename
  | some "DISABLE" | some "ENABLE" => switch
  | some "DROP" => dropPart g
  | some "PARTITION" =>
    partition g
    needKw "RENAME"
    needKws ["TO", "PARTITION"]
    partition g
  | some "CHANGE" =>
    let _ ← kw "COLUMN"
    name
    name
    g.needType
    columnOptions g
    position
  | some "MODIFY" =>
    let _ ← kw "COLUMN"
    name
    g.needType
    columnOptions g
    position
  | some "ALTER" => column g
  | some "SWAP" =>
    needKw "WITH"
    qualifiedName
  | some "OWNER" =>
    require (← dialectIn [.postgreSql, .generic])
    needKw "TO"
    name
  | some _ =>
    needKw "TBLPROPERTIES"
    parens (commas (option g))
  | none => fail

def table (g : Rules) : Parser Unit := do
  let _ ← ifExists
  let _ ← kw "ONLY"
  qualifiedName
  Create.onCluster
  commas (operation g)
  when (← kw "LOCATION" <||> kws ["SET", "LOCATION"]) name

/-- A statement behind the word `ALTER`. -/
def parser (g : Rules) : Parser Unit := do
  match ← kwIn ["TABLE", "VIEW", "INDEX", "ROLE"] with
  | some "TABLE" => table g
  | some "VIEW" =>
    qualifiedName
    nameListIfAny false
    optionsAfter g ["WITH"]
    needKw "AS"
    g.query
  | some "INDEX" =>
    qualifiedName
    needKw "RENAME"
    needKw "TO"
    qualifiedName
  | some _ =>
    name
    needKws ["RENAME", "TO"]
    name
  | none => fail

end Alter
end HostSql.Sql.Grammar
