import HostSql.Host.Locate
import HostSql.Replacement

/-! Putting replacements back into the buffer. All of them are worked out against the buffer as it
was and put in from the last to the first, so that positions before them stay valid. -/
namespace HostSql

/-- What is wrong with fragments or with a buffer after its replacements. -/
inductive IntegrityError where
  /-- A span overlaps the one before it, runs backwards or leaves the buffer. -/
  | misplaced (span : Span)
  | splitsCharacter (span : Span)
  /-- The buffer has not the length that the replacements should give it. -/
  | lengthDiffers (length expected : Nat)
  | callsChanged (before after : Nat)
deriving DecidableEq, Repr

namespace IntegrityError

def cause : IntegrityError → String
  | misplaced s => s!"candidate span {s.start}..{s.stop} overlaps or exceeds the buffer"
  | splitsCharacter s => s!"candidate span {s.start}..{s.stop} splits a character"
  | lengthDiffers length expected =>
    s!"spliced length {length} differs from expected {expected}"
  | callsChanged before after =>
    s!"{before} call argument(s) before rewriting, {after} after"

def message (e : IntegrityError) : String := "buffer integrity error: " ++ e.cause

end IntegrityError

namespace Splice

/-- The first fault among fragments that have to start at byte position `least` or later: spans
ascend, lie in the buffer and split no character. -/
def fault? (buffer : Text) : Nat → List Fragment → Option IntegrityError
  | _, [] => none
  | least, f :: fs =>
    let s := f.span
    if s.start < least || s.stop < s.start || buffer.size < s.stop then some (.misplaced s)
    else if !buffer.isBorder s.start || !buffer.isBorder s.stop then some (.splitsCharacter s)
    else fault? buffer s.stop fs

def replaceSpan (t : Text) (s : Span) (new : Text) : Text := t.before s.start ++ new ++ t.after s.stop

abbrev Outcome := Fragment × Except Unchanged Text

/-- What becomes of each fragment. -/
def outcomes (format : Formatter) (c : Config) (buffer : Text) (fs : List Fragment) :
    List Outcome :=
  fs.map fun f => (f, replacement format c buffer f)

/-- A buffer into which replacements are being put, and the length that it should then have. -/
structure Progress where
  text : Text
  expected : Nat
  replaced : Nat := 0
  skipped : Nat := 0
deriving DecidableEq, Repr

namespace Progress

def start (buffer : Text) : Progress := { text := buffer, expected := buffer.size }

/-- One more fragment, all those after it being done. -/
def add (s : Progress) : Outcome → Progress
  | (f, .ok new) =>
    { s with
      text := replaceSpan s.text f.span new
      expected := s.expected - f.span.length + new.size
      replaced := s.replaced + 1 }
  | (_, .error _) => { s with skipped := s.skipped + 1 }

end Progress

/-- The buffer after the given outcomes, the last one being put in first. -/
def progress (buffer : Text) (os : List Outcome) : Progress :=
  os.foldr (fun o s => s.add o) (.start buffer)

end Splice

/-- A buffer whose fragments have been processed. -/
structure Spliced where
  text : Text
  replaced : Nat := 0
  skipped : Nat := 0
deriving DecidableEq, Repr

/-- Replaces every fragment that has a replacement; the others keep their text. -/
def splice (format : Formatter) (c : Config) (buffer : Text) (fs : List Fragment) :
    Except IntegrityError Spliced :=
  match Splice.fault? buffer 0 fs with
  | some e => .error e
  | none =>
    let s := Splice.progress buffer (Splice.outcomes format c buffer fs)
    if s.text.size = s.expected then
      .ok { text := s.text, replaced := s.replaced, skipped := s.skipped }
    else .error (.lengthDiffers s.text.size s.expected)

def countCalls (fs : List Fragment) : Nat := fs.countP (·.kind == .call)

/-- Looks for calls in a buffer after its replacements: none may have come or gone. -/
def verify (c : Config) (fragments : List Fragment) (output : Text) : Except IntegrityError Unit :=
  let before := countCalls fragments
  let after := countCalls ((Locator.ofConfig c).locate output)
  if before = after then .ok () else .error (.callsChanged before after)

end HostSql
