import HostSql.Sql.Token

/-! Cutting SQL into tokens. Each rule says how many characters a token takes beyond its first one;
a string, quoted name or comment that is never closed has no end, and then the text has no
tokens. -/
namespace HostSql.Sql.Lexer

def run (p : Char → Bool) (t : Text) : Nat := (t.takeWhile p).length

/-- Up to and with the closing quote. A doubled quote is part of the string, and so is whatever
follows a backslash where backslashes protect. -/
def quotedEnd (quote : Char) (backslash : Bool) : Text → Option Nat
  | [] => none
  | [c] => if c = quote then some 1 else none
  | c :: d :: t =>
    if c = quote then
      if d = quote then (quotedEnd quote backslash t).map (· + 2) else some 1
    else if backslash && c == '\\' then (quotedEnd quote backslash t).map (· + 2)
    else (quotedEnd quote backslash (d :: t)).map (· + 1)

/-- Up to and with the third of three quotes in a row, `seen` of which have been read. -/
def tripleQuotedEnd (quote : Char) (backslash : Bool) : Nat → Text → Option Nat
  | _, [] => none
  | seen, [c] => if c = quote && seen == 2 then some 1 else none
  | seen, c :: d :: t =>
    if c = quote then
      if seen = 2 then some 1 else (tripleQuotedEnd quote backslash (seen + 1) (d :: t)).map (· + 1)
    else if backslash && c == '\\' then (tripleQuotedEnd quote backslash 0 t).map (· + 2)
    else (tripleQuotedEnd quote backslash 0 (d :: t)).map (· + 1)

/-- A string behind its opening quote, in a dialect that may have tripled quotes. -/
def stringEnd (triple backslash : Bool) (quote : Char) (t : Text) : Option Nat :=
  if triple then
    if t.take 2 == [quote, quote] then
      (tripleQuotedEnd quote backslash 0 (t.drop 2)).map (· + 2)
    else if t.head? == some quote then some 1
    else quotedEnd quote backslash t
  else quotedEnd quote backslash t

def isHexDigit (c : Char) : Bool :=
  c.isDigit || ('a' ≤ c && c ≤ 'f') || ('A' ≤ c && c ≤ 'F')

def isOctalDigit (c : Char) : Bool := '0' ≤ c && c ≤ '7'

def digitValue (c : Char) : Nat :=
  if c.isDigit then c.toNat - '0'.toNat else c.toLower.toNat - 'a'.toNat + 10

def value (base : Nat) (digits : Text) : Nat :=
  digits.foldl (fun n c => n * base + digitValue c) 0

/-- A code that may stand for a byte of a text: not zero, and ASCII once cut to eight bits. -/
def isByteCode (n : Nat) : Bool := 0 < n % 256 && n % 256 < 128

def isCodePoint (n : Nat) : Bool := n < 0xd800 || (0xe000 ≤ n && n < 0x110000)

/-- What an escape takes behind its backslash; nothing if it stands for no character. -/
def escapeEnd : Text → Option Nat
  | [] => none
  | c :: t =>
    let fixed (width : Nat) :=
      let digits := t.take width
      let digits := if digits.head? == some '+' then digits.drop 1 else digits
      if (t.take width).length = width && !digits.isEmpty && digits.all isHexDigit &&
          isCodePoint (value 16 digits) && value 16 digits != 0 then some (width + 1) else none
    if c = 'u' then fixed 4
    else if c = 'U' then fixed 8
    else if c = 'x' then
      let digits := (t.take 2).takeWhile isHexDigit
      if digits.isEmpty || isByteCode (value 16 digits) then some (digits.length + 1) else none
    else if isOctalDigit c then
      let digits := (t.take 2).takeWhile isOctalDigit
      if isByteCode (value 8 (c :: digits)) then some (digits.length + 1) else none
    else if c = '\x00' then none
    else some 1

/-- A string whose backslashes stand for other characters, behind its opening quote. `pending`
characters of an escape are still to be passed. -/
def escapedEnd : Nat → Text → Option Nat
  | _, [] => none
  | pending + 1, _ :: t => (escapedEnd pending t).map (· + 1)
  | 0, '\'' :: '\'' :: t => (escapedEnd 0 t).map (· + 2)
  | 0, '\'' :: _ => some 1
  | 0, '\\' :: t => do
    let width ← escapeEnd t
    (escapedEnd width t).map (· + 1)
  | 0, _ :: t => (escapedEnd 0 t).map (· + 1)

/-- A string with code points in hexadecimal, behind its opening quote. -/
def unicodeEnd : Nat → Text → Option Nat
  | _, [] => none
  | pending + 1, _ :: t => (unicodeEnd pending t).map (· + 1)
  | 0, '\'' :: '\'' :: t => (unicodeEnd 0 t).map (· + 2)
  | 0, '\'' :: _ => some 1
  | 0, '\\' :: t =>
    let code (skip width : Nat) :=
      let digits := (t.drop skip).take width
      if digits.length = width && digits.all isHexDigit && isCodePoint (value 16 digits) then
        (unicodeEnd (skip + width) t).map (· + 1)
      else none
    match t.head? with
    | some '\\' => (unicodeEnd 1 t).map (· + 1)
    | some '+' => code 1 6
    | _ => code 0 4
  | 0, _ :: t => (unicodeEnd 0 t).map (· + 1)

/-- A comment behind its opening sign; `last` is the character read last. Comments nest. -/
def blockCommentEnd : (depth : Nat) → (last : Char) → Text → Option Nat
  | _, _, [] => none
  | depth, last, c :: t =>
    if last = '/' ∧ c = '*' then (blockCommentEnd (depth + 1) c t).map (· + 1)
    else if last = '*' ∧ c = '/' then
      if depth = 0 then some 1 else (blockCommentEnd (depth - 1) c t).map (· + 1)
    else (blockCommentEnd depth c t).map (· + 1)

/-- Behind its sign, a line comment takes the rest of the line and the line break. -/
def lineCommentEnd (t : Text) : Nat :=
  let body := run (· != '\n') t
  if body < t.length then body + 1 else body

/-- Up to and with the second of two dollar signs in a row. -/
def dollarsEnd : Text → Option Nat
  | [] => none
  | [_] => none
  | c :: d :: t =>
    if c = '$' ∧ d = '$' then some 2 else (dollarsEnd (d :: t)).map (· + 1)

/-- Up to and with the closing tag. Characters that agree with the tag so far and then do not are
passed. -/
def taggedEnd (tag : Text) : Nat → Text → Option Nat
  | _, [] => none
  | pending + 1, _ :: t => (taggedEnd tag pending t).map (· + 1)
  | 0, c :: t =>
    if c = '$' then
      let agreed := ((tag.zip t).takeWhile fun (a, b) => a = b).length
      if agreed = tag.length then
        if (t.drop agreed).head? = some '$' then some (agreed + 2)
        else (taggedEnd tag agreed t).map (· + 1)
      else (taggedEnd tag (agreed + 1) t).map (· + 1)
    else (taggedEnd tag 0 t).map (· + 1)

/-- A string between dollar signs, or a named parameter. -/
def dollar (t : Text) : Option (TokenKind × Nat) :=
  match t with
  | '$' :: t => (dollarsEnd t).map fun n => (.string .special, n + 1)
  | t =>
    let name := t.takeWhile fun c => isLetter c || isNumeral c || c == '_'
    match t.drop name.length with
    | '$' :: body => (taggedEnd name 0 body).map fun n => (.string .special, name.length + 1 + n)
    | _ => some (.placeholder, name.length)

/-- Digits with a point, an exponent and a mark for long integers; a point alone; in some dialects
a word that starts with digits. -/
def number (d : Dialect) (c : Char) (t : Text) : TokenKind × Nat :=
  let s := c :: t
  let whole := run Char.isDigit s
  if whole == 1 && c == '0' && t.head? == some 'x' then
    (.string .special, 1 + run isHexDigit (t.drop 1))
  else
    let point := if (s.drop whole).head? == some '.' then 1 else 0
    let n := whole + point + run Char.isDigit (s.drop (whole + point))
    if whole == 0 && n == 1 then (.symbol, 0)
    else
      let rest := s.drop n
      let sign := match rest with
        | _ :: '+' :: _ | _ :: '-' :: _ => 2
        | _ => 1
      let marked := rest.head? == some 'e' || rest.head? == some 'E'
      let power := if marked then run Char.isDigit (rest.drop sign) else 0
      let n := if 0 < power then n + sign + power else n
      let letters := run d.continuesWord (s.drop n)
      if d.wordsStartWithDigits && !marked && 0 < letters then (.word, n + letters - 1)
      else if (s.drop n).head? == some 'L' then (.number, n)
      else (.number, n - 1)

/-- The operators, longer ones before those that they start with. In the second list are those
that some dialects let users lengthen. -/
def plainOperators : List String := [
  "=>", "==", "=", "!~~*", "!~~", "!~*", "!~", "!!", "!=", "!", "::", ":=", ":", "^@", "^", "+", "*",
  "/", "(", ")", ",", ";", "\\", "[", "]", "\x7b", "\x7d"]

def openOperators : List String := [
  "->>", "->", "-", "||/", "||", "|/", "|", "<=>", "<=", "<>", "<<", "<@", "<", ">=", ">>", ">", "&&",
  "&", "~~*", "~~", "~*", "~", "#>>", "#>", "#-", "#", "%"]

def findOperator (operators : List String) (t : Text) : Option Nat :=
  (operators.find? fun o => (Text.strip? o.toList t).isSome).map (·.length)

def operator? (d : Dialect) (c : Char) (t : Text) : Option (TokenKind × Nat) :=
  if c == '/' && t.head? == some '/' && d.dividesWithSlashes then some (.symbol, 1)
  else match findOperator plainOperators (c :: t) with
    | some n => some (.symbol, n - 1)
    | none =>
      (findOperator openOperators (c :: t)).map fun n =>
        let more := run d.continuesOperator ((c :: t).drop n)
        if 0 < more then (.customOperator, n + more - 1) else (.symbol, n - 1)

def word (d : Dialect) (t : Text) : TokenKind × Nat := (.word, run d.continuesWord t)

/-- The at sign opens operators, and names where it may start a word. -/
def atSign (d : Dialect) (t : Text) : TokenKind × Nat :=
  let named := d.startsWord '@'
  match t with
  | '>' :: _ | '?' :: _ => (.symbol, 1)
  | '@' :: t =>
    match t with
    | [] | ' ' :: _ => (.symbol, 1)
    | _ :: t => if named then (.word, 2 + run d.continuesWord t) else (.symbol, 1)
  | [] | ' ' :: _ | '\'' :: _ | '"' :: _ | '\x60' :: _ => (.symbol, 0)
  | _ :: t => if named then (.word, 1 + run d.continuesWord t) else (.symbol, 0)

/-- A string with a mark before its quote, `t` following the mark. -/
def marked (d : Dialect) (c : Char) (t : Text) : Option (Option (TokenKind × Nat)) :=
  let special (n : Option Nat) := some (n.map fun n => (TokenKind.string .special, n + 1))
  match c.toLower, t with
  | 'b', '\'' :: t =>
    if d.hasByteStrings then special (stringEnd d.hasTripleQuotes false '\'' t) else none
  | 'b', '"' :: t =>
    if d.hasByteStrings then special (stringEnd d.hasTripleQuotes false '"' t) else none
  | 'r', '\'' :: t => if d.hasRawStrings then special (stringEnd true false '\'' t) else none
  | 'r', '"' :: t => if d.hasRawStrings then special (stringEnd true false '"' t) else none
  | 'n', '\'' :: t | 'x', '\'' :: t => special (quotedEnd '\'' true t)
  | 'e', '\'' :: t => some ((escapedEnd 0 t).map fun n => (.string .escaped, n + 1))
  | 'u', '&' :: '\'' :: t =>
    if d.hasUnicodeStrings then some ((unicodeEnd 0 t).map fun n => (.string .unicode, n + 2))
    else none
  | _, _ => none

/-- A name between quotes. In one dialect the quotes hold only what looks like a name. -/
def quotedWord? (d : Dialect) (c : Char) (t : Text) : Bool :=
  d.opensQuotedName c &&
    (d != .redshift || (t.dropWhile isBlank).head?.any (d.startsWord ·))

/-- A word, a parameter or an operator. -/
def plain (d : Dialect) (c : Char) (t : Text) : Option (TokenKind × Nat) :=
  if c == '#' && d.startsWord '#' && !(['-', '>', ' '].contains (t.headD ' ')) then
    some (.word, 1 + run d.continuesWord (t.drop 1))
  else if c == '#' then some ((operator? d c t).getD (.stray, 0))
  else if c == '@' then some (atSign d t)
  else if c == '?' then
    if d == .postgreSql then some (.symbol, min 1 t.length)
    else some (.placeholder, run isNumeral t)
  else if d.startsWord c then some (word d t)
  else if c == '$' then dollar t
  else if isBlank c then some (.blank, 0)
  else some ((operator? d c t).getD (.stray, 0))

/-- A string or a quoted name without a mark, a number or a comment, or anything that is plain. -/
def unmarked (d : Dialect) (c : Char) (t : Text) : Option (TokenKind × Nat) :=
  if c == '\'' then
    (stringEnd d.hasTripleQuotes d.escapesWithBackslash c t).map (.string .single, ·)
  else if c == '"' && !d.opensQuotedName c then
    (stringEnd d.hasTripleQuotes d.escapesWithBackslash c t).map (.string .double, ·)
  else if quotedWord? d c t then
    (quotedEnd (Dialect.closesQuotedName c) false t).map (.quotedWord c, ·)
  else if c.isDigit || c == '.' then some (number d c t)
  else if c == '-' && t.head? == some '-' then
    some (.lineComment 2, 1 + lineCommentEnd (t.drop 1))
  else if c == '/' && t.head? == some '*' then
    (blockCommentEnd 0 ' ' (t.drop 1)).map fun n => (.blockComment, n + 1)
  else if c == '/' && t.head? == some '/' && d.hasSlashComments then
    some (.lineComment 2, 1 + lineCommentEnd (t.drop 1))
  else if c == '#' && d.hasHashComments then some (.lineComment 1, lineCommentEnd t)
  else plain d c t

/-- The token that starts with `c`: its kind and the number of characters it takes of `t`. -/
def first (d : Dialect) (c : Char) (t : Text) : Option (TokenKind × Nat) :=
  if c == ' ' || c == '\t' || c == '\n' then some (.blank, 0)
  else if c == '\r' then some (.blank, if t.head? == some '\n' then 1 else 0)
  else match marked d c t with
  | some token => token
  | none => unmarked d c t

/-- The tokens from a place on. -/
def tokensFrom (d : Dialect) (l : Location) (t : Text) : Option (List LocatedToken) :=
  match t with
  | [] => some []
  | c :: t => do
    let (kind, n) ← first d c t
    let text := c :: t.take n
    let more ← tokensFrom d (l.past text) (t.drop n)
    return ⟨⟨kind, text⟩, l⟩ :: more
termination_by t.length
decreasing_by simp only [List.length_drop, List.length_cons]; omega

end Lexer

/-- The tokens of a text with their locations; nothing if something in it is never closed. -/
def tokens? (d : Dialect) (t : Text) : Option (List LocatedToken) := Lexer.tokensFrom d {} t

end HostSql.Sql
