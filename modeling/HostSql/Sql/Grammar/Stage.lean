import HostSql.Sql.Grammar.Literal

/-! Stages: the places that files lie in before their rows are copied into tables. -/
namespace HostSql.Sql.Grammar.Stage

def word : Parser Unit := do require (← accept (·.isWord))

/-- Keys, each with a word or a string for its value, without commas between them. -/
def options : Parser Unit :=
  parens <| loop do
    if ← isSym ")" then return false
    word
    needSym "="
    require (← accept fun i => i.isWord || i.isString .single)
    return true

/-- `p` behind a keyword and an equals sign, if that keyword comes next. -/
def setting (name : String) (p : Parser Unit) : Parser Unit :=
  after name do
    needSym "="
    p

/-- Signs and words up to a point or a blank. -/
def namePart : Parser Unit :=
  loop do
    match ← peek with
    | some i =>
      if !i.glued || i.isSymbol "." then return false
      require (i.isWord || ["@", "~", "%", "/"].any i.isSymbol)
      skip
      return true
    | none => return false

/-- The name of a table or, behind an at sign, of a stage. -/
def place : Parser Unit := do
  if ← sym "@" then
    loop do
      namePart
      sym "."
  else qualifiedName

/-- Where the files of a stage are, and how to get at them. -/
def access : Parser Unit := do
  setting "URL" quotedString
  setting "STORAGE_INTEGRATION" skip
  setting "ENDPOINT" quotedString
  setting "CREDENTIALS" options
  setting "ENCRYPTION" options

/-- A definition behind the words `CREATE STAGE`. -/
def create : Parser Unit := do
  let _ ← ifNotExists
  qualifiedName
  access
  setting "DIRECTORY" options
  setting "FILE_FORMAT" options
  setting "COPY_OPTIONS" options
  setting "COMMENT" quotedString

/-- A column of a file by its number, or a part of it. -/
def column : Parser Unit := do
  when (← accept (·.isWord)) (needSym ".")
  require (← accept fun i =>
    i.kind == .placeholder && isDigits (i.written.drop 1).toString)
  when (← sym ":") word
  after "AS" word

def source : Parser Unit := do
  place
  access
  after "AS" word

/-- A copy behind the words `COPY INTO`. -/
def copyInto : Parser Unit := do
  place
  needKw "FROM"
  if ← isSym "(" then
    parens do
      needKw "SELECT"
      commasOr false column
      needKw "FROM"
      source
  else source
  setting "FILES" (parens (commasOr false quotedString))
  setting "PATTERN" quotedString
  setting "FILE_FORMAT" options
  setting "COPY_OPTIONS" options
  setting "VALIDATION_MODE" skip

end HostSql.Sql.Grammar.Stage
