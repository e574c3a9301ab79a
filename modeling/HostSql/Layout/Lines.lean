import HostSql.Sql.Lexer

/-! Lines of SQL, and which of them start inside a token. Tokens come with a line and a column; the
bytes they cover are found by walking over the text once. -/
namespace HostSql.Layout

open Sql (Location LocatedToken Token)

/-- A place in a text while it is walked over. -/
structure Walk where
  location : Location := {}
  offset : Nat := 0
  ahead : Text

/-- Walks on to a location; nothing if no character on the way has it. -/
def Walk.to? (target : Location) : Walk → Option Walk
  | ⟨l, offset, []⟩ =>
    if l.isBefore target then none else if l = target then some ⟨l, offset, []⟩ else none
  | ⟨l, offset, c :: t⟩ =>
    if l.isBefore target then to? target ⟨l.next c, offset + c.utf8Size, t⟩
    else if l = target then some ⟨l, offset, c :: t⟩ else none
termination_by w => w.ahead.length

/-- The byte positions of locations that follow one another. -/
def starts? : Walk → List Location → Option (List Nat)
  | _, [] => some []
  | w, l :: ls => do
    let w ← w.to? l
    let more ← starts? w ls
    return w.offset :: more

/-- Each token ends where the next one starts, the last one with the text. -/
def spansTo (stop : Nat) : List Nat → List Span
  | [] => []
  | [a] => [⟨a, stop⟩]
  | a :: b :: more => ⟨a, b⟩ :: spansTo stop (b :: more)

/-- The bytes covered by tokens that start at the given locations. -/
def spans? (sql : Text) (starts : List Location) : Option (List Span) :=
  (starts? { ahead := sql } starts).map (spansTo sql.size)

structure SpannedToken where
  token : Token
  span : Span
deriving DecidableEq, Repr

def tokenize (d : Dialect) (sql : Text) : Option (List SpannedToken) := do
  let located ← Sql.tokens? d sql
  let spans ← spans? sql (located.map (·.location))
  return located.zipWith (fun k s => ⟨k.token, s⟩) spans

structure Line where
  text : Text
  /-- The line starts inside a token, so its indentation belongs to that token. -/
  continued : Bool
deriving DecidableEq, Repr

/-- Byte positions behind the line breaks of a text that starts at `offset`. -/
def breaks : Nat → Text → List Nat
  | _, [] => []
  | offset, c :: t =>
    let next := offset + c.utf8Size
    if c = '\n' then next :: breaks next t else breaks next t

/-- Byte positions of the lines that start inside one of the spans. -/
def insideStarts (sql : Text) (spans : List Span) : List Nat :=
  spans.flatMap fun s => (breaks s.start (sql.slice s)).filter (· < s.stop)

def linesFrom (inside : List Nat) : Nat → List Text → List Line
  | _, [] => []
  | offset, t :: ts => ⟨t, inside.contains offset⟩ :: linesFrom inside (offset + t.size + 1) ts

/-- The lines of a text whose tokens cover the given bytes. -/
def linesWith (sql : Text) (spans : List Span) : List Line :=
  linesFrom (insideStarts sql spans) 0 sql.lines

/-- The lines of a text; nothing when it has no tokens. -/
def splitLines (d : Dialect) (sql : Text) : Option (List Line) :=
  (tokenize d sql).map fun tokens => linesWith sql (tokens.map (·.span))

end HostSql.Layout
