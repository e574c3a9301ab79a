import HostSql.Sql.Grammar.Operand

/-! Operators between and behind operands. -/
namespace HostSql.Sql.Grammar.Operator

/-- Operators between two operands and how strongly they bind. -/
def binary : List (String × Nat) := [
  ("^@", 50), ("&&", 50), ("*", 40), ("/", 40), ("//", 40), ("%", 40), ("||", 40), ("+", 30),
  ("-", 30), ("&", 23), ("^", 22), ("#", 22), ("<<", 22), (">>", 22), ("|", 21), ("=", 20),
  ("==", 20), ("<", 20), ("<=", 20), (">", 20), (">=", 20), ("<>", 20), ("!=", 20), ("<=>", 20),
  ("~", 20), ("~*", 20), ("!~", 20), ("!~*", 20), ("~~", 20), ("~~*", 20), ("!~~", 20),
  ("!~~*", 20), ("->", 16), ("->>", 16), ("#>", 16), ("#>>", 16), ("@>", 16), ("<@", 16),
  ("#-", 16), ("@?", 16), ("@@", 16), ("?", 16), ("?&", 16), ("?|", 16)]

/-- Operators that only some dialects have. -/
def restricted : List (String × List Dialect) := [
  ("//", [.duckDb, .generic]), ("<<", [.postgreSql, .duckDb, .generic]),
  (">>", [.postgreSql, .duckDb, .generic]), ("#", [.postgreSql]), ("&&", [.postgreSql, .generic]),
  ("^@", [.postgreSql, .generic])]

/-- Comparisons that can be made with any or all values of a list. -/
def comparisons : List String := [">", "<", ">=", "<=", "=", "==", "<>", "!="]

def typePrecedence : Nat := 50
def likePrecedence : Nat := 19

/-- Words between two operands. -/
def wordPrecedence (next later : Option Item) (word : String) : Nat :=
  let isAhead (i : Option Item) (names : List String) := i.any fun i => names.any i.isKeyword
  match word with
  | "OR" => 5
  | "AND" => 10
  | "XOR" => 24
  | "AT" => if isAhead next ["TIME"] && isAhead later ["ZONE"] then 41 else 0
  | "NOT" =>
    if isAhead next ["IN", "BETWEEN"] then 20
    else if isAhead next ["LIKE", "ILIKE", "RLIKE", "REGEXP", "SIMILAR"] then likePrecedence
    else 0
  | "IS" => 17
  | "IN" | "BETWEEN" | "OPERATOR" => 20
  | "LIKE" | "ILIKE" | "RLIKE" | "REGEXP" | "SIMILAR" => likePrecedence
  | "DIV" => 40
  | _ => 0

/-- How strongly the operator ahead binds; zero if there is none. -/
def precedence : Parser Nat := do
  let snowflake ← dialectIn [.snowflake]
  match (← get).ahead with
  | [] => return 0
  | i :: rest =>
    match i.kind with
    | .word => return wordPrecedence rest.head? rest[1]? i.text
    | .customOperator => return 16
    | .symbol =>
      if i.text == "::" || i.text == "!" || i.text == "[" then return typePrecedence
      else if i.text == ":" then return if snowflake then typePrecedence else 0
      else return (binary.lookup i.text).getD 0
    | _ => return 0

/-- The second operand of a binary operator. -/
def secondOperand (g : Rules) (sign : String) (p : Nat) : Parser Unit := do
  if ← anyKw ["ANY", "ALL", "SOME"] then
    require (← isSym "(")
    if (← peekAt 1).any startsQuery then g.exprAbove p else parens (g.exprAbove p)
    require (comparisons.contains sign)
  else g.exprAbove p

def inList (g : Rules) : Parser Unit := do
  if ← kw "UNNEST" then parens g.expr
  else parens do
    if ← isQueryAhead then g.query
    else if ← dialectIn [.sqlite] then commasUpTo ")" g.expr
    else g.exprs

def pattern (g : Rules) : Parser Unit := do
  g.exprAbove likePrecedence
  after "ESCAPE" stringLiteral

/-- Membership, ranges and patterns. -/
def membership (g : Rules) : Parser Unit := do
  let _ ← kw "NOT"
  match ← kwIn ["REGEXP", "RLIKE", "IN", "BETWEEN", "LIKE", "ILIKE", "SIMILAR"] with
  | some "IN" => inList g
  | some "BETWEEN" =>
    g.exprAbove Operand.betweenPrecedence
    needKw "AND"
    g.exprAbove Operand.betweenPrecedence
  | some "LIKE" | some "ILIKE" =>
    let _ ← kw "ANY"
    pattern g
  | some "SIMILAR" =>
    needKw "TO"
    pattern g
  | some _ => g.exprAbove likePrecedence
  | none => fail

/-- What `IS` can say of its operand. -/
def property (g : Rules) : Parser Unit := do
  let _ ← kw "NOT"
  unless ← anyKw ["NULL", "TRUE", "FALSE", "UNKNOWN"] do
    needKws ["DISTINCT", "FROM"]
    g.expr

/-- The part of a list that a subscript names, behind the opening bracket: an index, or bounds and a
step between colons. -/
def subscript (g : Rules) : Parser Unit := do
  unless ← sym ":" do
    g.expr
    if ← sym "]" then return
    needSym ":"
  if ← sym "]" then return
  g.expr
  if ← sym "]" then return
  needSym ":"
  if ← sym "]" then return
  g.expr
  needSym "]"

/-- Keys that lead into a value, each with its sign in front. -/
def path (g : Rules) : Parser Unit := do
  let key : Parser Unit := do
    require (← accept fun i =>
      i.kind == .word || i.kind == .quotedWord '"' || i.isString .double)
  when (← sym ":") key
  loop do
    if ← sym "." then
      key
      return true
    if ← sym "[" then
      g.expr
      needSym "]"
      return true
    return false

/-- Keys in brackets, behind the first opening one. -/
def keys (g : Rules) : Parser Unit := do
  let mixed ← dialectIn [.bigQuery]
  g.expr
  needSym "]"
  loop do
    if ← sym "[" then
      g.expr
      needSym "]"
      return true
    if ← pure mixed <&&> sym "." then
      g.expr
      return true
    return false

def indexing (g : Rules) : Parser Unit := do
  if ← dialectIn [.postgreSql, .duckDb, .generic, .clickHouse, .bigQuery] then
    needSym "["
    subscript g
  else if ← dialectIn [.snowflake] then path g
  else
    needSym "["
    keys g

/-- An operator name in parentheses, with the names of schemas in front. -/
def operatorName : Parser Unit :=
  parens <| loop do
    let _ ← next
    sym "."

/-- One operator and its second operand, where one that binds with strength `p` is ahead. -/
def parser (g : Rules) (p : Nat) : Parser Unit := do
  if ← isSym "[" then indexing g
  else if ← isSym ":" then path g
  else
    match ← peek with
    | none => fail
    | some i =>
      match i.kind with
      | .word =>
        match i.text with
        | "IS" =>
          skip
          property g
        | "AT" =>
          needKws ["AT", "TIME", "ZONE"]
          g.exprAbove p
        | "AND" | "OR" | "XOR" =>
          skip
          secondOperand g i.text p
        | "DIV" =>
          skip
          require (← dialectIn [.mySql])
          g.exprAbove p
        | "OPERATOR" =>
          skip
          require (← dialectIn [.postgreSql, .generic])
          operatorName
          secondOperand g i.text p
        | _ => membership g
      | .customOperator =>
        skip
        secondOperand g i.text p
      | _ =>
        skip
        if i.text == "::" then g.needType
        else if i.text == "!" then require (← dialectIn [.postgreSql])
        else
          require (← dialectIn ((restricted.lookup i.text).getD [(← get).dialect]))
          secondOperand g i.text p

end Operator

/-- An expression up to an operator that does not bind more strongly than `p`. -/
def exprAbove (g : Rules) (p : Nat) : Parser Unit :=
  nested do
    Operand.parser g
    loop do
      let ahead ← Operator.precedence
      if ahead ≤ p then return false
      Operator.parser g ahead
      return true

end HostSql.Sql.Grammar
