import HostSql.Text.Basic

/-! String literals of the host language: marks such as `f` or `rb`, an opening delimiter, a body in
which a backslash protects the character after it, and the same delimiter again. -/
namespace HostSql

/-- The four delimiters of a string literal. -/
inductive Quote where
  | single
  | double
  | tripleSingle
  | tripleDouble
deriving DecidableEq, Repr, Inhabited

namespace Quote

def char : Quote → Char
  | single | tripleSingle => '\''
  | double | tripleDouble => '"'

def isTriple : Quote → Bool
  | single | double => false
  | tripleSingle | tripleDouble => true

def delimiter (q : Quote) : Text := List.replicate (if q.isTriple then 3 else 1) q.char

/-- The triple delimiter of the same character. -/
def toTriple : Quote → Quote
  | single | tripleSingle => tripleSingle
  | double | tripleDouble => tripleDouble

/-- The delimiter of the same length made of the other character. -/
def swapped : Quote → Quote
  | single => double
  | double => single
  | tripleSingle => tripleDouble
  | tripleDouble => tripleSingle

/-- The delimiter that a text starting with a quote opens with. -/
def opening? : Text → Option Quote
  | '\'' :: '\'' :: '\'' :: _ => some tripleSingle
  | '\'' :: _ => some single
  | '"' :: '"' :: '"' :: _ => some tripleDouble
  | '"' :: _ => some double
  | _ => none

end Quote

def isQuote (c : Char) : Bool := c == '\'' || c == '"'

/-- Characters of a host name. Every character beyond ASCII counts as one. -/
def isNameChar (c : Char) : Bool := c.isAlphanum || c == '_' || '\x80' ≤ c

/-- A string literal by its parts. -/
structure Literal where
  marks : Text
  quote : Quote
  body : Text
deriving DecidableEq, Repr

namespace Literal

/-- The literal as it is written. -/
def text (l : Literal) : Text := l.marks ++ l.quote.delimiter ++ l.body ++ l.quote.delimiter

def isMarks (marks : Text) : Bool :=
  [[], ['f'], ['r'], ['b'], ['u'], ['f', 'r'], ['r', 'f'], ['b', 'r'], ['r', 'b']].contains
    marks.lower

/-- The marks at the front of a text, if a quote follows them at once. -/
def marks? (t : Text) : Option Text :=
  let marks := (t.take 2).takeWhile (!isQuote ·)
  if isMarks marks && (t.drop marks.length).head?.any isQuote then some marks else none

def marksInterpolate (marks : Text) : Bool := marks.lower.contains 'f'

def marksMeanBytes (marks : Text) : Bool := marks.lower.contains 'b'

/-- The body up to the closing delimiter and what follows that delimiter. Failing that, the text
that is left: from the line break that ends a literal with a plain delimiter, or nothing. -/
def close (q : Quote) : Text → Except Text (Text × Text)
  | [] => .error []
  | ['\\'] => .error []
  | '\\' :: e :: t => (close q t).map fun (body, rest) => ('\\' :: e :: body, rest)
  | c :: t =>
    if !q.isTriple && c == '\n' then .error (c :: t)
    else match Text.strip? q.delimiter (c :: t) with
      | some rest => .ok ([], rest)
      | none => (close q t).map fun (body, rest) => (c :: body, rest)

/-- What reading a literal at the front of a text gives: the literal and what follows it, or, when
there is no complete literal, the text at which reading goes on. -/
inductive Reading where
  | closed (literal : Literal) (rest : Text)
  | unclosed (rest : Text)
deriving DecidableEq, Repr

def read (t : Text) : Reading :=
  match marks? t with
  | none => .unclosed (t.drop 1)
  | some marks =>
    let opened := t.drop marks.length
    match Quote.opening? opened with
    | none => .unclosed (t.drop 1)
    | some q =>
      match close q (opened.drop q.delimiter.length) with
      | .ok (body, rest) => .closed ⟨marks, q, body⟩ rest
      | .error rest => .unclosed rest

/-- Where a literal lies in a byte string. -/
structure Extent where
  start : Nat
  content : Span
  stop : Nat
  quote : Quote
  marksLength : Nat
  interpolated : Bool
deriving DecidableEq, Repr

inductive Scan where
  | terminated (extent : Extent)
  | unterminated (resume : Nat)
deriving DecidableEq, Repr

/-- Bytes as characters, one for each. Quotes, marks and backslashes are ASCII, so reading
literals off the bytes of an encoded text and off its characters is the same. -/
def glyphs (bytes : List UInt8) : Text := bytes.map fun b => Char.ofNat b.toNat

/-- Scans a byte string for the literal that starts at position `start`. -/
def scan (bytes : List UInt8) (start : Nat) : Scan :=
  match read (glyphs (bytes.drop start)) with
  | .closed l _ =>
    let first := start + l.marks.length + l.quote.delimiter.length
    let last := first + l.body.length
    .terminated
      { start
        content := ⟨first, last⟩
        stop := last + l.quote.delimiter.length
        quote := l.quote
        marksLength := l.marks.length
        interpolated := marksInterpolate l.marks }
  | .unclosed rest => .unterminated (bytes.length - rest.length)

end Literal

/-- A body between two of these delimiters reads back as one literal with that body. -/
def Quote.fits (q : Quote) (body : Text) : Bool :=
  match Literal.read (q.delimiter ++ body ++ q.delimiter) with
  | .closed l rest => rest.isEmpty && l.quote == q
  | .unclosed _ => false

end HostSql
