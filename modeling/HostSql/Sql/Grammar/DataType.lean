import HostSql.Sql.Grammar.Literal

/-! Types of columns and casts, and spans of time. -/
namespace HostSql.Sql.Grammar

namespace DataType

/-- Types without a parameter. -/
def plain : List String := [
  "BOOLEAN", "BOOL", "REAL", "FLOAT4", "FLOAT32", "FLOAT64", "FLOAT8", "INT16", "INT32", "INT64",
  "INT128", "INT256", "UINT8", "UINT16", "UINT32", "UINT64", "UINT128", "UINT256", "UUID", "DATE",
  "DATE32", "JSON", "JSONB", "REGCLASS", "TEXT", "TINYTEXT", "MEDIUMTEXT", "LONGTEXT", "BYTEA",
  "TINYBLOB", "MEDIUMBLOB", "LONGBLOB", "TRIGGER"]

/-- Types with a size. -/
def sized : List String := [
  "FLOAT", "CLOB", "BINARY", "VARBINARY", "BLOB", "BYTES", "DATETIME", "TIMESTAMPTZ", "TIMETZ",
  "STRING"]

def integers : List String := [
  "TINYINT", "INT2", "SMALLINT", "MEDIUMINT", "INT", "INT4", "INT8", "INTEGER", "BIGINT"]

def decimals : List String := ["NUMERIC", "DECIMAL", "DEC", "BIGNUMERIC", "BIGDECIMAL"]

def size : Parser Unit := do when (← isSym "(") (parens literalNat)

def sizeAndScale : Parser Unit := do
  when (← isSym "(") <| parens do
    literalNat
    when (← sym ",") literalNat

def characterCount : Parser Unit := do
  when (← isSym "(") <| parens do
    unless ← kw "MAX" do
      literalNat
      let _ ← anyKw ["CHARACTERS", "OCTETS"]

def characters : Parser Unit := do
  if ← kw "VARYING" then characterCount
  else if ← kws ["LARGE", "OBJECT"] then size
  else characterCount

def timeZone : Parser Unit := do
  when (← anyKw ["WITH", "WITHOUT"]) (needKws ["TIME", "ZONE"])

/-- The strings of an enumeration. -/
def members : Parser Unit :=
  parens <| loop do
    quotedString
    sym ","

/-- What follows the name of a type that is not known. -/
def modifiers : Parser Unit := do
  when (← sym "(") <| loop do
    let i ← next
    require (i.isWord || i.kind == .number || i.isString .single || i.isSymbol "," || i.isSymbol ")")
    return !i.isSymbol ")"

/-- The closing angle bracket of a type, unless it has been read with one inside. Of two that stand
together the second closes the type around this one. -/
def closeAngle (closed : Bool) : Parser Bool := do
  if ← pure closed <||> sym ">" then return false
  needSym ">>"
  return true

def inParens (g : Rules) : Parser Unit := parens g.needType

/-- A field with or without a name. -/
def field (g : Rules) : Parser Bool := do
  when ((← isNext (·.isWord)) && (← peekAt 1).any (·.isWord)) name
  return (← g.typeIn).2

def namedField (g : Rules) : Parser Unit := do
  name
  g.needType

/-- The fields of a structure between angle brackets, if there are any. -/
def fields (g : Rules) : Parser Bool := do
  if ← sym "<" then
    closeAngle <| ← repeatUntil do
      let closed ← field g
      if ← sym "," then
        require !closed
        return none
      return some closed
  else return false

def unnamedField (g : Rules) : Parser Unit := do require !(← field g)

/-- What follows the word that a type starts with; nothing if the word is only a name. -/
def builtin? (g : Rules) (word : String) : Parser (Option (TypeKind × Bool)) := do
  let found (p : Parser Unit) : Parser (Option (TypeKind × Bool)) := do
    p
    return some (.builtin, false)
  let foundIn (ds : List Dialect) (p : Parser Unit) : Parser (Option (TypeKind × Bool)) := do
    if ← dialectIn ds then found p else return none
  if plain.contains word then return ← found (pure ())
  if sized.contains word then return ← found size
  if decimals.contains word then return ← found sizeAndScale
  if integers.contains word then
    return ← found do
      size
      let _ ← kw "UNSIGNED"
  match word with
  | "INTERVAL" => return some (.interval, false)
  | "DOUBLE" => found do
    let _ ← kw "PRECISION"
  | "VARCHAR" | "NVARCHAR" => found characterCount
  | "CHARACTER" | "CHAR" => found characters
  | "DATETIME64" => found <| parens do
    literalNat
    when (← sym ",") stringLiteral
  | "TIMESTAMP" | "TIME" => found do
    size
    timeZone
  | "FIXEDSTRING" => found (parens literalNat)
  | "ENUM" | "SET" => found members
  | "ARRAY" =>
    if ← dialectIn [.snowflake] then found (pure ())
    else if ← dialectIn [.clickHouse] then found (inParens g)
    else
      needSym "<"
      return some (.builtin, ← closeAngle (← g.typeIn).2)
  | "STRUCT" =>
    if ← dialectIn [.duckDb] then found (parens (commas (namedField g)))
    else if ← dialectIn [.bigQuery, .generic] then return some (.builtin, ← fields g)
    else return none
  | "UNION" => foundIn [.duckDb, .generic] (parens (commas (namedField g)))
  | "NULLABLE" | "LOWCARDINALITY" => foundIn [.clickHouse, .generic] (inParens g)
  | "MAP" => foundIn [.clickHouse, .generic] <| parens do
    g.needType
    needSym ","
    g.needType
  | "NESTED" => foundIn [.clickHouse, .generic] (parens (commas (namedField g)))
  | "TUPLE" => foundIn [.clickHouse, .generic] (parens (commas (unnamedField g)))
  | _ => return none

def parser (g : Rules) : Parser (TypeKind × Bool) := do
  let start ← get
  let i ← next
  require i.isWord
  let known ← if i.kind == .word then builtin? g i.text else pure none
  let result ← match known with
    | some result => pure result
    | none =>
      set start
      qualifiedName
      modifiers
      pure (TypeKind.named, false)
  let counted ← dialectIn [.generic, .duckDb, .postgreSql]
  loop do
    if ← sym "[" then
      when counted do
        let _ ← attempt literalNat
      needSym "]"
      return true
    return false
  return result

end DataType

/-- A value and its unit, behind the word that opens an interval. Where the unit can be left out the
value is a single operand, so that operators behind it apply to the interval. -/
def interval (g : Rules) : Parser Unit := do
  let needsUnit ← dialectIn [.ansi, .bigQuery, .clickHouse, .databricks, .hive, .mySql]
  if needsUnit then g.expr else g.operand
  if ← isNext fun i => intervalUnits.any i.isKeyword then
    if ← timeField then DataType.sizeAndScale
    else
      DataType.size
      after "TO" do when (← timeField) DataType.size
  else require !needsUnit

end HostSql.Sql.Grammar
