import HostSql.Sql.Grammar.Change

/-! Statements that bring rows into tables and out of them. -/
namespace HostSql.Sql.Grammar

namespace Copy

/-- What a name or string says takes one byte. -/
def isByte (backslash : Bool) (i : Item) : Bool :=
  match i.kind with
  | .word => i.written.utf8ByteSize == 1
  | kind =>
    let quoted := i.written.toList.dropWhile fun c => c.isAlpha || c == '&'
    match (quoted.drop 1).dropLast with
    | [c] => c.utf8Size == 1
    | '\\' :: c :: more =>
      if kind == .string .escaped then
        c.toLower != 'u' && Lexer.escapeEnd (c :: more) == some (c :: more).length
      else backslash && c.utf8Size == 1 && more.isEmpty
    | [c, d] => c == d && ['\'', '"'].contains c
    | _ => false

def byte : Parser Unit := do
  let backslash := (← get).dialect.escapesWithBackslash
  require (← isNext (isByte backslash))
  stringLiteral

def truth : Parser Unit := do
  let _ ← anyKw ["TRUE", "FALSE"]

/-- One of the options in parentheses. -/
def option : Parser Unit := do
  match ← kwIn ["FORMAT", "FREEZE", "DELIMITER", "NULL", "HEADER", "QUOTE", "ESCAPE", "FORCE_QUOTE",
      "FORCE_NOT_NULL", "FORCE_NULL", "ENCODING"] with
  | some "FORMAT" => name
  | some "FREEZE" | some "HEADER" => truth
  | some "DELIMITER" | some "QUOTE" | some "ESCAPE" => byte
  | some "NULL" | some "ENCODING" => stringLiteral
  | some _ => nameList false
  | none => fail

/-- One of the options behind `CSV`. -/
def rowOption : Parser Unit := do
  match ← kwIn ["HEADER", "QUOTE", "ESCAPE", "FORCE"] with
  | some "HEADER" => pure ()
  | some "FORCE" =>
    unless ← kws ["NOT", "NULL"] do needKw "QUOTE"
    names
  | some _ =>
    let _ ← kw "AS"
    byte
  | none => fail

/-- One of the options in the older form, without parentheses. -/
def bareOption : Parser Unit := do
  match ← kwIn ["BINARY", "DELIMITER", "NULL", "CSV"] with
  | some "BINARY" => pure ()
  | some "DELIMITER" =>
    let _ ← kw "AS"
    byte
  | some "NULL" =>
    let _ ← kw "AS"
    stringLiteral
  | some _ => loop (succeeds rowOption)
  | none => fail

/-- Rows that follow the statement, up to a backslash and a point. -/
def inlineRows : Parser Unit :=
  loop do
    if ← atEnd then return false
    if ← sym "\\" then if ← sym "." then return false
    skip
    return true

/-- A copy behind the word `COPY`. -/
def parser (g : Rules) : Parser Unit := do
  let query ← isSym "("
  if query then parens g.query
  else
    qualifiedName
    nameListIfAny false
  if ← kw "FROM" then require !query else needKw "TO"
  let inline ← kw "STDIN"
  unless ← pure inline <||> kw "STDOUT" do
    let _ ← kw "PROGRAM"
    stringLiteral
  let _ ← kw "WITH"
  when (← isSym "(") (parens (commas option))
  loop (succeeds bareOption)
  when inline do
    needSym ";"
    inlineRows

end Copy

/-- Rows of a query written to files, behind the word `UNLOAD`. -/
def unload (g : Rules) : Parser Unit := do
  parens g.query
  needKw "TO"
  name
  optionsAfter g ["WITH"]

end HostSql.Sql.Grammar
