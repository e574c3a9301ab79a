import HostSql.Sql.Grammar.Query

/-! Statements that change rows. -/
namespace HostSql.Sql.Grammar

/-- A name, an equals sign, and the value. -/
def option (g : Rules) : Parser Unit := do
  name
  needSym "="
  g.expr

def optionList (g : Rules) : Parser Unit :=
  parens (commasUpTo ")" (option g))

/-- Options in parentheses behind all of the words, if these are ahead. -/
def optionsAfter (g : Rules) (words : List String) : Parser Unit := afterAll words (optionList g)

/-- Values of the columns that a table is divided by. -/
def partition (g : Rules) : Parser Unit := parens g.exprs

/-- Formats of files. -/
def fileFormat : Parser Unit := do
  let _ ← needKwIn ["AVRO", "JSONFILE", "ORC", "PARQUET", "RCFILE", "SEQUENCEFILE", "TEXTFILE"]

def assignment (g : Rules) : Parser Unit := do
  if ← isSym "(" then parens (commas qualifiedName) else qualifiedName
  needSym "="
  g.expr

def assignments (g : Rules) : Parser Unit := commas (assignment g)

def returning (g : Rules) : Parser Unit := after "RETURNING" (Select.items g)

/-- What to do instead where a row is there already. -/
def onConflict : Parser Unit := do
  when (← isKw "OR") do
    when ((← peekAt 1).any fun i =>
        ["REPLACE", "ROLLBACK", "ABORT", "FAIL", "IGNORE"].any i.isKeyword) do
      skip
      skip

namespace Insert

def conflictAction (g : Rules) : Parser Unit := do
  if ← kw "CONFLICT" then
    if ← kws ["ON", "CONSTRAINT"] then qualifiedName
    else nameListIfAny false
    needKw "DO"
    unless ← kw "NOTHING" do
      needKws ["UPDATE", "SET"]
      assignments g
      after "WHERE" g.expr
  else
    needKws ["DUPLICATE", "KEY", "UPDATE"]
    assignments g

def source (g : Rules) : Parser Unit := do
  let mySql ← dialectIn [.mySql]
  unless (← isSym "(") && (← peekAt 1).any (·.isKeyword "SELECT") do
    nameListIfAny mySql
    after "PARTITION" (partition g)
    when (← dialectIn [.hive]) (nameListIfAny false)
  g.query

def intoTable (g : Rules) : Parser Unit := do
  let _ ← kw "TABLE"
  qualifiedName
  when (← dialectIn [.postgreSql]) (after "AS" name)
  unless ← kws ["DEFAULT", "VALUES"] do source g
  when (← dialectIn [.mySql, .generic]) <| after "AS" do
    qualifiedName
    nameListIfAny false
  after "ON" (conflictAction g)
  returning g

/-- An insertion behind the word `INSERT`. -/
def parser (g : Rules) : Parser Unit := do
  onConflict
  when (← dialectIn [.mySql, .generic]) do
    let _ ← anyKw ["LOW_PRIORITY", "DELAYED", "HIGH_PRIORITY"]
    let _ ← kw "IGNORE"
  for word in ["OVERWRITE", "INTO", "LOCAL"] do
    let _ ← kw word
  if ← kw "DIRECTORY" then
    stringLiteral
    afterAll ["STORED", "AS"] fileFormat
    g.query
  else intoTable g

end Insert

def joinedTable (g : Rules) : Parser Unit := do
  let _ ← Table.joined g

/-- Dialects whose updates do not read from further tables. The word alone is passed over. -/
def updatesOneTable : List Dialect := [.ansi, .clickHouse, .databricks, .hive, .mySql]

/-- An update behind the word `UPDATE`. -/
def update (g : Rules) : Parser Unit := do
  onConflict
  joinedTable g
  needKw "SET"
  assignments g
  after "FROM" do unless ← dialectIn updatesOneTable do joinedTable g
  after "WHERE" g.expr
  returning g

/-- A deletion behind the word `DELETE`. -/
def delete (g : Rules) : Parser Unit := do
  unless ← kw "FROM" do
    unless ← dialectIn [.bigQuery, .generic] do
      commas qualifiedName
      needKw "FROM"
  commas (joinedTable g)
  after "USING" (commas (joinedTable g))
  after "WHERE" g.expr
  returning g
  g.orderBy
  after "LIMIT" do
    let _ ← Query.limit g

namespace Merge

/-- One case of a merge: rows are inserted where none matches, and changed or deleted elsewhere. -/
def clause (g : Rules) : Parser Unit := do
  needKw "WHEN"
  let unmatched ← kw "NOT"
  needKw "MATCHED"
  let inserts ← do
    if unmatched then
      if ← kws ["BY", "SOURCE"] then pure false
      else
        let _ ← kws ["BY", "TARGET"]
        pure true
    else pure false
  after "AND" g.expr
  needKw "THEN"
  match ← kwIn ["UPDATE", "DELETE", "INSERT"] with
  | some "UPDATE" =>
    require !inserts
    needKw "SET"
    assignments g
  | some "DELETE" => require !inserts
  | some _ =>
    require inserts
    let mySql ← dialectIn [.mySql]
    nameListIfAny mySql
    unless ← dialectIn [.bigQuery, .generic] <&&> kw "ROW" do
      needKw "VALUES"
      Table.rows g mySql
  | none => fail

def parser (g : Rules) : Parser Unit := do
  let _ ← kw "INTO"
  let _ ← g.table
  needKw "USING"
  let _ ← g.table
  needKw "ON"
  g.expr
  loop do
    if (← atEnd) || (← isSym ";") then return false
    clause g
    return true

end Merge
end HostSql.Sql.Grammar
