import HostSql.Toml.Value

/-! Reading the characters of a TOML document. -/
namespace HostSql.Toml

/-- Takes a beginning of the text ahead, or fails. -/
abbrev Scan := StateT Text Option

namespace Scan

def peek : Scan (Option Char) := do return (← get).head?

def lead (t : Text) : Scan Unit := fun s => (Text.strip? t s).map fun rest => ((), rest)

/-- One character of a class. -/
def one (p : Char → Bool) : Scan Char := fun
  | [] => none
  | c :: s => if p c then some (c, s) else none

def run (p : Char → Bool) : Scan Text := fun s => some (s.takeWhile p, s.dropWhile p)

def opt {α : Type} (scan : Scan α) : Scan (Option α) := fun s =>
  match scan s with
  | some (a, rest) => some (some a, rest)
  | none => some (none, s)

def isSpace (c : Char) : Bool := c == ' ' || c == '\t'

def spaces : Scan Unit := do let _ ← run isSpace

/-- Characters that may stand for themselves in comments and in strings. -/
def isPlain (c : Char) : Bool := c == '\t' || (' ' ≤ c && c != '\x7f')

def lineBreak : Scan Unit := lead ['\n'] <|> lead ['\r', '\n']

def comment : Scan Unit := do
  lead ['#']
  let _ ← run isPlain

/-- The end of a line behind an expression. -/
def lineEnd : Scan Unit := do
  spaces
  let _ ← opt comment
  if (← get).isEmpty then return
  lineBreak

/-- Blanks, comments and line breaks between the elements of an array. -/
def gap : Nat → Scan Unit
  | 0 => pure ()
  | n + 1 => do
    spaces
    match ← opt (lineBreak <|> (do comment; lineBreak)) with
    | some () => gap n
    | none => pure ()

def gaps : Scan Unit := do gap ((← get).length + 1)

end Scan
end HostSql.Toml
