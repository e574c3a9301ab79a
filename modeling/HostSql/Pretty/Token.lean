import HostSql.Pretty.Words
import HostSql.Text.Letters

/-! SQL as the layout reads it: words and signs by the part that they play in the lines. What the
grammar takes for one token can be several here, and the other way round. -/
namespace HostSql.Pretty

inductive Role where
  | blank
  | lineComment
  | blockComment
  | typeMark
  | string
  /-- An opening parenthesis, or the word that opens a case expression. -/
  | opening
  | closing
  | number
  /-- Opens a clause. -/
  | clause
  /-- Opens a clause with a body that is not indented. -/
  | flatClause
  /-- Opens a clause wherever it stands and indents what follows. -/
  | action
  /-- Starts a line within a clause. -/
  | line
  | reserved
  | operator
  | placeholder
  | word
deriving DecidableEq, Repr

structure Token where
  role : Role
  text : Text
deriving DecidableEq, Repr

def isWordChar (c : Char) : Bool := isLetter c || isNumeral c || isCombining c || isConnector c

/-- The name by which a clause is known to what follows it. Its letters count as written. -/
def Token.alias (k : Token) : Text :=
  let starts (s : String) := (Text.strip? s.toList k.text).isSome
  if starts "CREATE" then "CREATE".toList
  else if starts "SELECT" then "SELECT".toList
  else k.text

/-- What the tokens read so far say about the next one. -/
structure Context where
  /-- The last token that is not blank. -/
  last : Option Token := none
  lastReserved : Option Token := none
  lastClause : Option Token := none

def Context.add (x : Context) (k : Token) : Context :=
  { last := if k.role = .blank then x.last else some k
    lastReserved := if k.role = .reserved then some k else x.lastReserved
    lastClause := if k.role = .clause then some k else x.lastClause }

/-! Each rule gives the role of the token at the front of a text and the number of characters that
it takes. -/

abbrev Rule := Text → Option (Role × Nat)

def comment : Rule := fun t =>
  let lineSign := if t.head? == some '#' then 1 else if t.take 2 == ['-', '-'] then 2 else 0
  if 0 < lineSign then
    let body := t.takeWhile fun c => c != '\n' && c != '\r'
    let rest := t.drop body.length
    if rest.head? == some '\r' && rest.tail.head? != some '\n' then none
    else some (.lineComment, body.length)
  else if t.take 2 == ['/', '*'] then
    match Text.splitFirst? ['*', '/'] (t.drop 2) with
    | some (body, _) => some (.blockComment, body.length + 4)
    | none => some (.blockComment, t.length)
  else none

def typeMark (x : Context) : Rule := fun t =>
  let allowed : List Role :=
    [.closing, .placeholder, .reserved, .string, .number, .typeMark, .word]
  if x.last.all (allowed.contains ·.role) && (t.take 2 == [':', ':'] || t.take 2 == ['[', ']'])
  then some (.typeMark, 2) else none

/-- Up to and with the closing quote. A quote that follows one of the given characters does not
close. -/
def stringEnd (quote : Char) (guards : List Char) : Text → Option Nat
  | [] => none
  | [c] => if c = quote then some 1 else none
  | c :: d :: t =>
    if guards.contains c && d == quote then (stringEnd quote guards t).map (· + 2)
    else if c = quote then some 1
    else (stringEnd quote guards (d :: t)).map (· + 1)

def string : Rule := fun t =>
  let closed (sign : Nat) (quote : Char) (guards : List Char) :=
    (stringEnd quote guards (t.drop (sign + 1))).map fun n => (Role.string, sign + 1 + n)
  match t with
  | '\x60' :: _ => closed 0 '\x60' ['\x60']
  | '"' :: _ => closed 0 '"' ['"', '\\']
  | '\'' :: _ => closed 0 '\'' ['\'', '\\']
  | 'N' :: '\'' :: _ | 'E' :: '\'' :: _ => closed 1 '\'' ['\'', '\\']
  | 'x' :: '\'' :: _ | 'X' :: '\'' :: _ => closed 1 '\'' []
  | _ => none

def bracket (sign : Char) (keyword : Text) (role : Role) : Rule := fun t =>
  if t.head? == some sign then some (role, 1)
  else
    let n := keyword.length
    if Text.upper (t.take n) == keyword && !(t.drop n).head?.any isWordChar then some (role, n)
    else none

def number : Rule := fun t =>
  let sign := if t.head? == some '-' then 1 else 0
  let digits (t : Text) := (t.takeWhile Char.isDigit).length
  let whole := digits (t.drop sign)
  if whole = 0 then none
  else
    let n := sign + whole
    let n := if (t.drop n).head? == some '.' then n + 1 + digits (t.drop (n + 1)) else n
    let exponent := match t.drop n with
      | 'e' :: '-' :: t | 'e' :: '+' :: t => if 0 < digits t then 2 + digits t else 0
      | 'e' :: t => if 0 < digits t then 1 + digits t else 0
      | _ => 0
    some (.number, n + exponent)

/-- The next words of a text, up to the given number. -/
def nextWords : Nat → Text → List Text
  | 0, _ => []
  | n + 1, t =>
    let t := t.dropWhile isBlank
    let word := t.takeWhile (!isBlank ·)
    if word.isEmpty then [] else word :: nextWords n (t.drop word.length)

/-- The words start with the keyword, which ends where a word can end. -/
def startWith : Keyword → List Text → Bool
  | [], _ => true
  | _ :: _, [] => false
  | [k], w :: _ =>
    match Text.strip? k w with
    | some rest => !rest.head?.any isWordChar
    | none => false
  | k :: ks, w :: ws => k == w && startWith ks ws

def findKeyword (words : List Text) (table : List Keyword) : Option Keyword :=
  table.find? (startWith · words)

/-- The longest keyword has this many words. -/
def keywordLimit : Nat := 4

/-- A clause may lose its rank by what comes before it. Only words written in upper case do. -/
def clauseRole (x : Context) (text : Text) : Role :=
  let after (names : List String) := x.lastClause.any fun k =>
    names.contains (String.ofList k.alias)
  if text == "EXCEPT".toList && after ["SELECT"] then .reserved
  else if text == "SET".toList && after ["UPDATE"] then .action
  else if text == "USING".toList && !after ["MERGE INTO", "DELETE FROM"] then .reserved
  else .clause

def lineRole (x : Context) (text : Text) : Role :=
  if text == "AND".toList && x.lastReserved.any (·.text == "BETWEEN".toList) then .reserved
  else .line

/-- A keyword. Its words may be any blanks apart; none is one behind a point. -/
def reserved (x : Context) : Rule := fun t =>
  if x.last.any (·.text == ['.']) || !t.head?.any fun c => c.isAlpha || c == '$' then none
  else
    let words := (nextWords keywordLimit t).map Text.upper
    let taken (keyword : Keyword) : Nat :=
      let final := keyword.getLastD []
      match Text.splitFirst? final (Text.upper t) with
      | some (before, _) => before.length + final.length
      | none => 0
    let found (table : List Keyword) (role : Text → Role) : Option (Role × Nat) :=
      (findKeyword words table).map fun keyword =>
        let n := taken keyword
        (role (t.take n), n)
    found clauseWords (clauseRole x) <|>
      found actionWords (fun _ => .action) <|>
      found lineWords (lineRole x) <|>
      found joinWords (fun _ => .line) <|>
      found flatClauseWords (fun _ => .flatClause) <|>
      found pairWords (fun _ => .reserved) <|>
      found plainWords (fun _ => .reserved)

def operatorSigns : List Char :=
  ['!', '<', '>', '=', '|', ':', '-', '~', '*', '&', '@', '^', '?', '#', '/', '%']

/-- From two to five signs in a row. -/
def operator : Rule := fun t =>
  let n := ((t.take 5).takeWhile operatorSigns.contains).length
  if 2 ≤ n then some (.operator, n) else none

def placeholder : Rule := fun t =>
  match t with
  | [] => none
  | c :: rest =>
    let digits := (rest.takeWhile Char.isDigit).length
    let name := (rest.takeWhile fun c =>
      isLetter c || isNumeral c || c == '.' || c == '_' || c == '$').length
    if (c == '?' || c == '$') && 0 < digits then some (.placeholder, 1 + digits)
    else if c == '?' then some (.placeholder, 1)
    else if (c == '@' || c == ':' || c == '$') && 0 < name then some (.placeholder, 1 + name)
    else if c == '@' || c == ':' then (string rest).map fun (_, n) => (.placeholder, 1 + n)
    else none

def word : Rule := fun t =>
  let n := (t.takeWhile isWordChar).length
  if 0 < n then some (.word, n) else none

def sign : Rule := fun t =>
  match t with
  | c :: _ => if c == '\n' || c == '\r' then none else some (.operator, 1)
  | [] => none

/-- The token at the front of a text that does not start with a blank: the first rule that applies
tells. -/
def next (x : Context) : Rule := fun t =>
  comment t <|> typeMark x t <|> string t <|> bracket '(' "CASE".toList .opening t <|>
    bracket ')' "END".toList .closing t <|> number t <|> reserved x t <|> operator t <|>
    placeholder t <|> word t <|> sign t

/-- The tokens of a text, each run of blanks being one of them. -/
def tokensFrom (x : Context) (t : Text) : List Token :=
  match t with
  | [] => []
  | c :: t =>
    let taken :=
      if isBlank c then some (Role.blank, ((c :: t).takeWhile isBlank).length)
      else next x (c :: t)
    match taken with
    | none => []
    | some (role, n) =>
      let k : Token := ⟨role, c :: t.take (n - 1)⟩
      k :: tokensFrom (x.add k) (t.drop (n - 1))
termination_by t.length
decreasing_by simp only [List.length_drop, List.length_cons]; omega

def tokens (t : Text) : List Token := tokensFrom {} t

end HostSql.Pretty
