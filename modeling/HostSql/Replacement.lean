import HostSql.Formatter
import HostSql.Host.Fragment
import HostSql.Layout.Lines
import HostSql.Mask

/-! The replacement of one fragment: its text is masked, formatted, unmasked, and put between
delimiters or on lines that fit the place it came from. Everything about the place is read off
the buffer that the fragment was found in. -/
namespace HostSql

/-- Why a fragment stays as it is. -/
inductive Unchanged where
  | parseError (message : String)
  | empty
  | tokenLoss
  /-- No delimiter can hold the formatted text. -/
  | delimiter
  | alreadyFormatted
  | invalidOption (message : String)
deriving DecidableEq, Repr

namespace Unchanged

def ofFormatError : FormatError → Unchanged
  | .emptyInput => empty
  | .parse m => parseError m
  | .invalidOption m => invalidOption m

def message : Unchanged → String
  | parseError m => s!"parse error: {m}"
  | empty => "empty"
  | tokenLoss => "token loss"
  | delimiter => "no valid delimiter"
  | alreadyFormatted => "already formatted"
  | invalidOption m => s!"invalid option: {m}"

end Unchanged

namespace Replacement

open Layout (Line)

/-- The line break nearest to a position: the next one, or else the last one before it. -/
def lineBreak (buffer : Text) (position : Nat) : Text :=
  let behind := buffer.before position
  let ahead := buffer.after position
  let lead := ahead.takeWhile (· != '\n')
  let before :=
    if lead.length < ahead.length then (behind ++ lead).getLast?
    else (behind.reverse.dropWhile (· != '\n')).tail.head?
  if before = some '\r' then ['\r', '\n'] else ['\n']

/-- The indentation of the line that holds a position, as far as it lies before the position. -/
def lineIndent (buffer : Text) (position : Nat) : Text :=
  let behind := buffer.before position
  Text.indentation (behind.reverse.takeWhile (· != '\n')).reverse

/-- A final line that holds nothing is no line. -/
def withoutEmptyLast (lines : List Line) : List Line :=
  match lines.getLast? with
  | some l => if l.text.isEmpty && !l.continued then lines.dropLast else lines
  | none => lines

/-- The lines of the unmasked text. Which of them start inside a token is read off the masked text,
where no expression can be taken for SQL; an expression over several lines has no such lines. -/
def sqlLines (d : Dialect) (masked sql : Text) : Option (List Line) := do
  let shape ← Layout.splitLines d masked
  let texts := sql.lines
  if texts.length = shape.length then
    some (withoutEmptyLast (texts.zipWith (fun t l => ⟨t, l.continued⟩) shape))
  else none

/-- Lines without the blanks at their ends, save where the line break stands inside a token. -/
def settle : List Line → List Line
  | [] => []
  | [l] => [{ l with text := l.text.trimEnd }]
  | l :: next :: more =>
    (if next.continued then l else { l with text := l.text.trimEnd }) :: settle (next :: more)

/-- The line break before a line; one inside a token stays as the formatter wrote it. -/
def separator (newline : Text) (l : Line) : Text := if l.continued then ['\n'] else newline

/-- Lines one after the other, each as `put` writes it. -/
def joinLines (newline : Text) (put : Line → Text) : List Line → Text
  | [] => []
  | l :: more => put l ++ more.flatMap fun l => separator newline l ++ put l

/-- A line behind its padding. Blank lines get none, and lines inside a token have their own. -/
def padded (pad : Text) (l : Line) : Text :=
  if !l.continued && !l.text.isBlankLine then pad ++ l.text else l.text

def wrap (marks : Text) (q : Quote) (body : Text) : Text :=
  marks ++ q.delimiter ++ body ++ q.delimiter

/-- Formatted SQL as a literal. A single line keeps its delimiter; several lines go between triple
delimiters, indented under the line that the literal starts on. -/
def delimit (c : Config) (buffer : Text) (f : Fragment) (q : Quote) (masked sql : Text) :
    Except Unchanged Text :=
  if !sql.contains '\n' then
    if q.fits sql then .ok (wrap f.marks q sql) else .error .delimiter
  else
    let newline := lineBreak buffer f.span.stop
    let base := lineIndent buffer f.span.start
    let pad := base ++ List.replicate c.indent ' '
    match sqlLines (Dialect.ofName c.dialect) masked sql with
    | none => .error .delimiter
    | some lines =>
      let body := newline ++ joinLines newline (padded pad) (settle lines) ++ newline ++ base
      match [q.toTriple, q.toTriple.swapped].find? (·.fits body) with
      | some q => .ok (wrap f.marks q body)
      | none => .error .delimiter

/-- Formatted SQL as the lines of a block. Blank lines would end the block, so they are dropped; one
inside a token cannot be. -/
def blockLines (c : Config) (buffer : Text) (f : Fragment) (masked sql : Text) :
    Except Unchanged Text :=
  let newline := lineBreak buffer f.span.start
  match sqlLines (Dialect.ofName c.dialect) masked sql with
  | none => .error .delimiter
  | some lines =>
    let lines := settle lines
    if lines.any fun l => l.text.isBlankLine && l.continued then .error .delimiter
    else .ok (joinLines newline (·.text) (lines.filter (!·.text.isBlankLine)))

/-- The text in a shape that can be formatted. -/
def masked (f : Fragment) : Option Masked :=
  if f.interpolated then mask f.raw else some { text := f.raw }

def place (c : Config) (buffer : Text) (f : Fragment) (formatted sql : Text) :
    Except Unchanged Text :=
  match f.kind, f.quote with
  | .call, some q => delimit c buffer f q formatted sql
  | .call, none => .error .delimiter
  | .block, _ => blockLines c buffer f formatted sql

end Replacement

/-- The replacement of a fragment, or why it stays as it is. -/
def replacement (format : Formatter) (c : Config) (buffer : Text) (f : Fragment) :
    Except Unchanged Text :=
  match Replacement.masked f with
  | none => .error .tokenLoss
  | some m =>
    match format c m.text with
    | .error e => .error (.ofFormatError e)
    | .ok formatted =>
      match unmask formatted m.placeholders with
      | none => .error .tokenLoss
      | some sql =>
        match Replacement.place c buffer f formatted sql with
        | .error reason => .error reason
        | .ok text => if text = buffer.slice f.span then .error .alreadyFormatted else .ok text

end HostSql
