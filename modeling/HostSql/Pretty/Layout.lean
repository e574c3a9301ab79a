import HostSql.Pretty.Token

/-! Laying out SQL. Tokens are written one after the other, with a stack of indentations: a clause
indents its body, a parenthesis what it holds. Short parentheses stay on their line. -/
namespace HostSql.Pretty

structure Options where
  indent : Nat
  uppercase : Bool
  /-- Blanks instead of line breaks. -/
  inline : Bool
  /-- Line breaks behind a statement. -/
  between : Nat

/-- Longest text in parentheses, in bytes, that stays on its line. -/
def maxInline : Nat := 50

inductive Indent where
  | body
  | parenthesis
deriving DecidableEq, Repr

/-- What was seen last at one level: the clause with the extent of its body, and the reserved
word. -/
structure Seen where
  extent : Option Nat := none
  reserved : Option Token := none

structure State where
  /-- What has been written, last character first. -/
  written : Text := []
  indents : List Indent := []
  seen : List Seen := []
  /-- How many parentheses deep the text stands in one that stays on its line. -/
  inline : Nat := 0
  /-- Tokens are copied as they are. -/
  verbatim : Bool := false

/-- A token between those before it, nearest first, and those after it. -/
structure Place where
  before : List Token
  token : Token
  after : List Token

namespace Place

def previousSolid? (p : Place) : Option Token := p.before.find? (·.role != .blank)

def nextSolid? (p : Place) : Option Token := p.after.find? (·.role != .blank)

end Place

/-- Bytes up to the next clause of the same level or the end of the level; a run of blanks counts
as one. -/
def extentOf : (depth : Nat) → List Token → Nat
  | _, [] => 0
  | depth, k :: ks =>
    match k.role with
    | .opening => k.text.size + extentOf (depth + 1) ks
    | .closing => if depth = 0 then 0 else k.text.size + extentOf (depth - 1) ks
    | .clause | .flatClause | .action =>
      if depth = 0 then 0 else k.text.size + extentOf depth ks
    | .blank => 1 + extentOf depth ks
    | _ => k.text.size + extentOf depth ks

/-- Tokens through the parenthesis that closes the first one. -/
def enclosed : (depth : Nat) → List Token → List Token
  | _, [] => []
  | depth, k :: ks =>
    match k.role with
    | .opening => k :: enclosed (depth + 1) ks
    | .closing => if depth ≤ 1 then [k] else k :: enclosed (depth - 1) ks
    | _ => k :: enclosed depth ks

/-- Two clauses follow one another at one level. `opened` is the level of the first. -/
def clausesMeet : (depth : Nat) → (opened : Option Nat) → List Token → Bool
  | _, _, [] => false
  | depth, opened, k :: ks =>
    match k.role with
    | .opening => clausesMeet (depth + 1) opened ks
    | .closing => clausesMeet (depth - 1) opened ks
    | .clause | .flatClause =>
      match opened with
      | none => clausesMeet depth (some depth) ks
      | some level => level == depth || clausesMeet depth opened ks
    | _ => clausesMeet depth opened ks

/-- The parenthesis that opens here can stay on its line. -/
def fitsInline (ks : List Token) : Bool :=
  let inside := enclosed 0 ks
  (inside.map (·.text.size)).foldr (· + ·) 0 ≤ maxInline &&
    inside.all (fun k =>
      k.role != .lineComment && k.role != .blockComment && k.role != .line && k.text != [';']) &&
    !clausesMeet 0 none inside

namespace State

def write (s : State) (t : Text) : State := { s with written := t.reverse ++ s.written }

def space (s : State) : State := s.write [' ']

def stripSpaces (s : State) : State := { s with written := s.written.dropWhile isIndent }

def stripBlanks (s : State) : State := { s with written := s.written.dropWhile isBlank }

def indentation (o : Options) (s : State) : Text :=
  List.replicate (o.indent * s.indents.length) ' '

def newline (o : Options) (s : State) : State :=
  let s := s.stripSpaces
  if o.inline then s.space
  else
    let s := if s.written.head? == some '\n' then s else s.write ['\n']
    s.write (s.indentation o)

def push (s : State) (i : Indent) : State := { s with indents := i :: s.indents }

/-- Leaves the body of a clause. -/
def leaveBody (s : State) : State :=
  match s.indents with
  | .body :: more => { s with indents := more, seen := s.seen.tail }
  | _ => s

/-- Leaves a parenthesis and the bodies of the clauses in it. -/
def leaveParenthesis (s : State) : State :=
  let bodies := (s.indents.takeWhile (· == .body)).length
  { s with indents := s.indents.drop (bodies + 1)
           seen := s.seen.drop (min (bodies + 1) s.indents.length) }

def seeReserved (s : State) (k : Token) : State :=
  match s.seen with
  | x :: more => { s with seen := { x with reserved := some k } :: more }
  | [] => { s with seen := [{ reserved := some k }] }

def seeClause (s : State) (k : Token) (extent : Nat) : State :=
  match s.seen with
  | x :: more => { s with seen := { x with extent := some extent } :: more }
  | [] => { s with seen := [{ extent := some extent, reserved := some k }] }

def clauseIsEmpty (s : State) : Bool := s.seen.head?.any (·.extent == some 0)

end State

/-- Each run of blanks as one space. -/
def collapse : Text → Text
  | [] => []
  | [c] => [if isBlank c then ' ' else c]
  | c :: d :: t =>
    if isBlank c then if isBlank d then collapse (d :: t) else ' ' :: collapse (d :: t)
    else c :: collapse (d :: t)

def cased (o : Options) (t : Text) : Text := if o.uppercase then t.upper else t.lower

def keywordText (o : Options) (k : Token) : Text := collapse (cased o k.text)

/-- Later lines of a comment that are indented get the indentation of the place, and one more
column. -/
def indentComment (indentation t : Text) : Text :=
  match t.lines with
  | [] => []
  | first :: more =>
    Text.ofLines (first :: more.map fun line =>
      if line.head?.any isIndent then indentation ++ ' ' :: line.dropWhile isIndent else line)

def putLineComment (o : Options) (s : State) (p : Place) : State :=
  let opensLine := p.before.head?.any (·.text.contains '\n') &&
    match p.after with
    | k :: next :: _ => k.role == .blank && next.role != .operator
    | _ => false
  let s :=
    if opensLine then s.newline o
    else if p.before.tail.head?.any (·.text == [',']) then s.stripBlanks.write [' ', ' ']
    else s
  (s.write p.token.text).newline o

def putBlockComment (o : Options) (s : State) (p : Place) : State :=
  let s := s.newline o
  (s.write (indentComment (s.indentation o) p.token.text)).newline o

def putClause (o : Options) (s : State) (p : Place) : State :=
  let extent := extentOf 0 p.after
  let s := (s.leaveBody.newline o).write (keywordText o p.token)
  let s :=
    if 0 < extent && p.token.alias != "CREATE".toList then (s.push .body).newline o else s.space
  s.seeClause p.token extent

def putFlatClause (o : Options) (s : State) (p : Place) : State :=
  let extent := extentOf 0 p.after
  let s := (s.leaveBody.newline o).write (keywordText o p.token)
  let s := if 0 < extent then s.newline o else s.space
  s.seeClause p.token extent

def putAction (o : Options) (s : State) (p : Place) : State :=
  let s := (s.leaveBody.newline o).write (keywordText o p.token)
  ((s.push .body).newline o).seeClause p.token (extentOf 0 p.after)

def putLine (o : Options) (s : State) (p : Place) : State :=
  let s :=
    if s.inline = 0 || p.previousSolid?.any (·.role == .lineComment) then
      (if s.clauseIsEmpty then s.push .body else s).newline o
    else s.stripSpaces.space
  ((s.write (keywordText o p.token)).space).seeReserved p.token

def putOpening (o : Options) (s : State) (p : Place) : State :=
  let inline :=
    if 0 < s.inline then s.inline + 1 else if fitsInline (p.token :: p.after) then 1 else 0
  let s := { s with inline }
  let kept : List Role := [.blank, .opening, .lineComment]
  let s := if p.before.head?.any (kept.contains ·.role) then s else s.stripSpaces
  let spaced : List Role := [.closing, .reserved]
  let s := if p.previousSolid?.any (spaced.contains ·.role) then s.stripSpaces.space else s
  let s := { s.push .parenthesis with seen := {} :: s.seen }
  let s := s.write (cased o p.token.text)
  if inline = 0 then s.newline o else if p.token.text == ['('] then s else s.space

def putClosing (o : Options) (s : State) (p : Place) : State :=
  let s := s.leaveParenthesis
  let text := cased o p.token.text
  if 0 < s.inline then
    let s := { s with inline := s.inline - 1 }.stripSpaces
    let s := if p.token.text == [')'] then s else s.space
    (s.write text).space
  else ((s.newline o).write text).space

def putTypeMark (s : State) (p : Place) : State :=
  let s := s.stripBlanks.write p.token.text
  let spaced : List Role := [.reserved, .line, .action]
  if p.nextSolid?.any (spaced.contains ·.role) then s.space else s

def putComma (o : Options) (s : State) : State :=
  let s := s.stripSpaces.write [',', ' ']
  let limited := s.seen.head?.any fun x =>
    x.reserved.any fun k => Text.upper k.text == "LIMIT".toList
  if 0 < s.inline || limited || s.clauseIsEmpty then s else s.newline o

def putSemicolon (o : Options) (s : State) : State :=
  { s with indents := [], seen := [] }.stripSpaces.write (';' :: List.replicate o.between '\n')

/-- Writes one token. -/
def put (o : Options) (s : State) (p : Place) : State :=
  let k := p.token
  match k.role with
  | .blank => s
  | .lineComment => putLineComment o s p
  | .blockComment => putBlockComment o s p
  | .clause => putClause o s p
  | .flatClause => putFlatClause o s p
  | .action => putAction o s p
  | .line => putLine o s p
  | .reserved => ((s.write (keywordText o k)).space).seeReserved k
  | .opening => putOpening o s p
  | .closing => putClosing o s p
  | .typeMark => putTypeMark s p
  | .placeholder => (s.write k.text).space
  | _ =>
    if k.text == [','] then putComma o s
    else if k.text == [':'] then (s.stripSpaces.write k.text).space
    else if k.text == ['.'] then s.stripSpaces.write k.text
    else if k.text == [';'] then putSemicolon o s
    else (s.write k.text).space

/-- A comment that switches the layout off or on. -/
def switch? (k : Token) : Option Bool :=
  if k.role != .lineComment then none
  else
    let text := Text.lower (k.text.filter (!isBlank ·))
    if text == "--fmt:off".toList then some true
    else if text == "--fmt:on".toList then some false
    else none

/-- Writes the tokens that follow `before`. The token behind a switch is passed. -/
def putAll (o : Options) (s : State) (before : List Token) (pass : Bool) : List Token → State
  | [] => s
  | k :: after =>
    if pass then putAll o s (k :: before) false after
    else match switch? k with
      | some off => putAll o { s with verbatim := off } (k :: before) true after
      | none =>
        let s := if s.verbatim then s.write k.text else put o s ⟨before, k, after⟩
        putAll o s (k :: before) false after

/-- The text laid out. -/
def layOut (o : Options) (t : Text) : Text :=
  Text.trim (putAll o {} [] false (tokens t)).written.reverse

end HostSql.Pretty
