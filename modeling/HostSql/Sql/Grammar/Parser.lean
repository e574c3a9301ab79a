import HostSql.Sql.Lexer

/-! Reading SQL by its grammar. Nothing is built: a parser says whether the tokens ahead are what it
stands for, and what is left. -/
namespace HostSql.Sql.Grammar

/-- A token as the grammar reads it. -/
structure Item where
  kind : TokenKind
  written : String
  /-- As written, but in upper case if it is a word without quotes. -/
  text : String
  /-- No blank stands before it. -/
  glued : Bool
deriving DecidableEq, Repr

namespace Item

def isWord (i : Item) : Bool :=
  match i.kind with
  | .word | .quotedWord _ => true
  | _ => false

def isKeyword (i : Item) (name : String) : Bool := i.kind == .word && i.text == name

def isSymbol (i : Item) (text : String) : Bool := i.kind == .symbol && i.text == text

def isString (i : Item) (kind : StringKind) : Bool := i.kind == .string kind

end Item

/-- The tokens that the grammar sees. -/
def items (tokens : List Token) : List Item :=
  go true tokens
where
  go (glued : Bool) : List Token → List Item
    | [] => []
    | k :: ks =>
      if k.isSpace then go false ks
      else
        let text := if k.kind = .word then k.text.upper else k.text
        ⟨k.kind, String.ofList k.text, String.ofList text, glued⟩ :: go true ks

inductive Failure where
  | unexpected
  /-- Expressions, queries and statements stand too deep in one another. -/
  | tooDeep
deriving DecidableEq, Repr

structure Input where
  dialect : Dialect
  ahead : List Item
  /-- How much deeper expressions, queries and statements may stand in one another. -/
  depth : Nat
  /-- Inside the condition that connects a row to its parent, where a value of the parent can be
  named. -/
  connecting : Bool := false

abbrev Parser := StateT Input (Except Failure)

def fail {α : Type} : Parser α := throw .unexpected

/-- Tries `p`. Where it fails nothing is taken, but nesting that is too deep ends everything. -/
def attempt {α : Type} (p : Parser α) : Parser (Option α) := fun s =>
  match p s with
  | .ok (a, s) => .ok (some a, s)
  | .error .tooDeep => .error .tooDeep
  | .error .unexpected => .ok (none, s)

def succeeds (p : Parser Unit) : Parser Bool := return (← attempt p).isSome

/-- One level deeper. -/
def nested {α : Type} (p : Parser α) : Parser α := fun s =>
  match s.depth with
  | 0 => .error .tooDeep
  | depth + 1 =>
    match p { s with depth } with
    | .ok (a, rest) => .ok (a, { rest with depth := s.depth })
    | .error e => .error e

def dialectIn (ds : List Dialect) : Parser Bool := return ds.contains (← get).dialect

def peek : Parser (Option Item) := return (← get).ahead.head?

def peekAt (n : Nat) : Parser (Option Item) := return (← get).ahead[n]?

def skip : Parser Unit := modify fun s => { s with ahead := s.ahead.tail }

def next : Parser Item := do
  match (← get).ahead with
  | [] => fail
  | i :: rest =>
    modify fun s => { s with ahead := rest }
    return i

def atEnd : Parser Bool := return (← get).ahead.isEmpty

def isNext (p : Item → Bool) : Parser Bool := return (← peek).any p

/-- Takes the next token if it satisfies `p`. -/
def accept (p : Item → Bool) : Parser Bool := do
  if ← isNext p then
    skip
    return true
  return false

def require (found : Bool) : Parser Unit := unless found do fail

def sym (s : String) : Parser Bool := accept (·.isSymbol s)

def needSym (s : String) : Parser Unit := do require (← sym s)

def isSym (s : String) : Parser Bool := isNext (·.isSymbol s)

def kw (name : String) : Parser Bool := accept (·.isKeyword name)

def needKw (name : String) : Parser Unit := do require (← kw name)

def isKw (name : String) : Parser Bool := isNext (·.isKeyword name)

/-- All of the keywords in a row, or none of them. -/
def kws (names : List String) : Parser Bool := do
  let ahead := (← get).ahead
  if names.length ≤ ahead.length && (ahead.zip names).all fun (i, name) => i.isKeyword name then
    modify fun s => { s with ahead := s.ahead.drop names.length }
    return true
  return false

def needKws (names : List String) : Parser Unit := do require (← kws names)

def kwIn (names : List String) : Parser (Option String) := do
  match ← peek with
  | some i =>
    if names.any i.isKeyword then
      skip
      return some i.text
    return none
  | none => return none

def anyKw (names : List String) : Parser Bool := return (← kwIn names).isSome

def needKwIn (names : List String) : Parser String := do
  match ← kwIn names with
  | some name => return name
  | none => fail

/-- `p` if the condition holds. -/
def when (found : Bool) (p : Parser Unit) : Parser Unit := if found then p else pure ()

/-- `p` behind a keyword, if that keyword comes next. -/
def after (name : String) (p : Parser Unit) : Parser Unit := do when (← kw name) p

def afterAll (names : List String) (p : Parser Unit) : Parser Unit := do when (← kws names) p

def parens (p : Parser Unit) : Parser Unit := do
  needSym "("
  p
  needSym ")"

/-- Repeats `p` until it has a result. Every round but the last takes a token, so there cannot be
more rounds than tokens. -/
def repeatUntil {α : Type} (p : Parser (Option α)) : Parser α := do go ((← get).ahead.length + 1)
where
  go : Nat → Parser α
    | 0 => fail
    | n + 1 => do
      match ← p with
      | some a => return a
      | none => go n

/-- Repeats `p` for as long as it asks to go on. -/
def loop (p : Parser Bool) : Parser Unit :=
  repeatUntil do
    if ← p then return none
    return some ()

def isDigits (s : String) : Bool := !s.isEmpty && s.toList.all Char.isDigit

/-- The largest whole number that can stand in a definition. -/
def maxLiteral : Nat := 18446744073709551615

/-- A whole number. -/
def literalNat : Parser Unit := do
  let i ← next
  let digits := if i.text.endsWith "L" then (i.text.dropEnd 1).toString else i.text
  require (i.kind == .number && isDigits digits && (digits.toNat?).any (· ≤ maxLiteral))

end HostSql.Sql.Grammar
