import HostSql.Sql.Grammar.Rules

/-! Values that are written out, and units of time. -/
namespace HostSql.Sql.Grammar

/-- A string, or a name that is no keyword. -/
def stringLiteral : Parser Unit := do
  let escaped ← dialectIn [.postgreSql, .generic]
  require (← accept fun i =>
    i.isFreeWord || i.isString .single || i.isString .double || i.isString .unicode ||
      (escaped && i.isString .escaped))

/-- A string between single quotes. -/
def quotedString : Parser Unit := do require (← accept (·.isString .single))

def number : Parser Unit := do require (← accept (·.kind == .number))

/-- A name or number behind the sign of a parameter. -/
def parameter : Parser Unit := do
  require (← accept fun i => i.isWord || (i.kind == .number && !i.text.endsWith "L"))

def value : Parser Unit := do
  let escaped ← dialectIn [.postgreSql, .generic]
  let i ← next
  match i.kind with
  | .word => require (["TRUE", "FALSE", "NULL"].contains i.text)
  | .quotedWord opening => require (opening == '"')
  | .number | .placeholder => return
  | .string .escaped => require escaped
  | .string _ => return
  | .symbol => if i.text == ":" || i.text == "@" then parameter else fail
  | _ => fail

/-- Units that may follow the value of an interval. -/
def intervalUnits : List String := [
  "YEAR", "MONTH", "WEEK", "DAY", "HOUR", "MINUTE", "SECOND", "CENTURY", "DECADE", "DOW", "DOY",
  "EPOCH", "ISODOW", "ISOYEAR", "JULIAN", "MICROSECOND", "MICROSECONDS", "MILLENIUM", "MILLENNIUM",
  "MILLISECOND", "MILLISECONDS", "NANOSECOND", "NANOSECONDS", "QUARTER", "TIMEZONE",
  "TIMEZONE_HOUR", "TIMEZONE_MINUTE"]

/-- Parts of a point in time. -/
def timeFields : List String :=
  intervalUnits ++ ["DAYOFWEEK", "DAYOFYEAR", "DATE", "DATETIME", "ISOWEEK", "TIME", "TIMEZONE_ABBR",
    "TIMEZONE_REGION"]

/-- A part of a point in time. The result says if it is the second. -/
def timeField : Parser Bool := do
  let custom ← dialectIn [.generic, .postgreSql, .snowflake]
  let i ← next
  if i.isKeyword "WEEK" then
    when ((← dialectIn [.bigQuery, .generic]) && (← isSym "(")) (parens name)
  else if i.isString .single then require (← dialectIn [.postgreSql, .snowflake])
  else require (i.isWord && (custom || timeFields.any i.isKeyword))
  return i.isKeyword "SECOND"

end HostSql.Sql.Grammar
