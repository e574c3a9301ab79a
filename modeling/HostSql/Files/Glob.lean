import HostSql.Files.Discover

/-! Patterns for names and paths. A pattern must match the whole text; the wildcards match a slash
like any other character. Texts are matched byte by byte in UTF-8: `?` and a set stand for one
byte. -/
namespace HostSql

namespace Glob

/-- What a pattern is written with. -/
inductive Symbol where
  | char (c : Char)
  | escaped (c : Char)
  | question
  | star
  | set (negated : Bool) (ranges : List (Char × Char))
  | opening
  | closing
  | comma
deriving DecidableEq, Repr

namespace Symbol

/-- The last character of the symbol. -/
def last : Symbol → Char
  | char c | escaped c => c
  | question => '?'
  | star => '*'
  | set .. => ']'
  | opening => '\x7b'
  | closing => '\x7d'
  | comma => ','

def ofChar (c : Char) : Symbol :=
  match c with
  | '?' => question
  | '*' => star
  | '\x7b' => opening
  | '\x7d' => closing
  | ',' => comma
  | c => char c

end Symbol

/-- A set that is being read, its ranges latest first. -/
structure OpenSet where
  negated : Bool := false
  ranges : List (Char × Char) := []
  /-- A dash waits for the upper end of the latest range. -/
  pending : Bool := false

namespace OpenSet

/-- The next character of a set; a range that runs backwards is none. A dash at the beginning
stands for itself. -/
def push? (s : OpenSet) (c : Char) : Option OpenSet :=
  match s.pending, s.ranges with
  | true, (low, _) :: more =>
    if c < low then none else some { s with ranges := (low, c) :: more, pending := false }
  | _, ranges =>
    if c == '-' && !ranges.isEmpty then some { s with pending := true }
    else some { s with ranges := (c, c) :: ranges }

/-- A dash at the end stands for itself. -/
def close (s : OpenSet) : Symbol :=
  .set s.negated (if s.pending then ('-', '-') :: s.ranges else s.ranges).reverse

end OpenSet

/-- The symbols of a pattern. It has none if a set is not closed, a range runs backwards, or a
backslash stands at the end. A closing bracket at the beginning of a set stands for itself. -/
def symbols? : Option OpenSet → Text → Option (List Symbol)
  | none, [] => some []
  | some _, [] => none
  | some s, c :: t =>
    if c == ']' && !s.ranges.isEmpty then (symbols? none t).map (s.close :: ·)
    else (s.push? c).bind fun s => symbols? (some s) t
  | none, '\\' :: c :: t => (symbols? none t).map (.escaped c :: ·)
  | none, ['\\'] => none
  | none, '[' :: '!' :: t => symbols? (some { negated := true }) t
  | none, '[' :: '^' :: t => symbols? (some { negated := true }) t
  | none, '[' :: t => symbols? (some {}) t
  | none, c :: t => (symbols? none t).map (.ofChar c :: ·)

/-- What a pattern consists of. -/
inductive Part where
  | literal (c : Char)
  | one
  | anything
  | set (negated : Bool) (ranges : List (Char × Char))
  /-- Two stars at the beginning: nothing, or all up to some slash. -/
  | starsFirst
  /-- Two stars between slashes: one slash, or all from a slash to another one. -/
  | starsBetween
  /-- Two stars at the end: a slash and all behind it. -/
  | starsLast
  | oneOf (alternatives : List (List Part))
deriving Inhabited

namespace Part

def isEmptyChoice : Part → Bool
  | oneOf [] => true
  | _ => false

/-- Alternatives that hold nothing are not counted. -/
def ofAlternatives (alternatives : List (List Part)) : Part :=
  oneOf (alternatives.filter fun parts => !parts.all isEmptyChoice)

/-- Two stars behind a slash take the place of that slash, unless two stars already precede it. -/
def mergeStars (stars : Part) : List Part → List Part
  | starsFirst :: parts => starsFirst :: parts
  | starsLast :: parts => starsLast :: parts
  | _ :: parts => stars :: parts
  | [] => [stars]

end Part

/-- An opening brace that is still to be closed. -/
structure Brace where
  /-- The parts before the brace, latest first. -/
  before : List Part
  /-- The alternatives that are complete, latest first. -/
  done : List (List Part)

/-- Two stars behind `last` may stand for directories: behind a slash, or, within braces, behind a
brace or comma that stands for itself. -/
def standsAlone (braces : List Brace) (last : Option Char) : Bool :=
  match last with
  | some '/' => true
  | some ',' | some '\x7b' => !braces.isEmpty
  | _ => false

/-- The parts of a pattern. `current` holds the parts of the alternative at hand, latest first, and
`last` the character before the symbols that are left. -/
def parts? (braces : List Brace) (current : List Part) (last : Option Char) :
    List Symbol → Option (List Part)
  | [] => if braces.isEmpty then some current.reverse else none
  | .star :: .star :: rest =>
    let both := .anything :: .anything :: current
    if current.isEmpty then
      match rest with
      | [] => parts? braces [.starsFirst] (some '*') []
      | .char '/' :: rest => parts? braces [.starsFirst] (some '/') rest
      | rest => parts? braces both (some '*') rest
    else if standsAlone braces last then
      match rest with
      | [] => parts? braces (Part.mergeStars .starsLast current) (some '*') []
      | .char '/' :: rest => parts? braces (Part.mergeStars .starsBetween current) (some '/') rest
      | s :: rest =>
        if !braces.isEmpty && (s == .comma || s == .closing) then
          parts? braces (Part.mergeStars .starsLast current) (some '*') (s :: rest)
        else parts? braces both (some '*') (s :: rest)
    else parts? braces both (some '*') rest
  | s :: rest =>
    let go (p : Part) := parts? braces (p :: current) (some s.last) rest
    match s with
    | .char c | .escaped c => go (.literal c)
    | .question => go .one
    | .star => go .anything
    | .set negated ranges => go (.set negated ranges)
    | .opening => parts? (⟨current, []⟩ :: braces) [] (some s.last) rest
    | .comma =>
      match braces with
      | [] => go (.literal ',')
      | b :: more =>
        parts? ({ b with done := current.reverse :: b.done } :: more) [] (some s.last) rest
    | .closing =>
      match braces with
      | [] => none
      | b :: more =>
        parts? more (.ofAlternatives (current.reverse :: b.done) :: b.before) (some s.last) rest

/-! Matching. -/

abbrev Bytes := List UInt8

def bytesOf (t : Text) : Bytes := t.flatMap String.utf8EncodeChar

def slash : UInt8 := 47

/-- The byte stands in the range. Ends beyond ASCII contribute their bytes: the last one of `low`
and the first one of `high` are the ends, the others stand for themselves. -/
def inRange (b : UInt8) (low high : Char) : Bool :=
  let lows := String.utf8EncodeChar low
  let highs := String.utf8EncodeChar high
  if low == high then lows.contains b
  else
    lows.dropLast.contains b || highs.tail.contains b ||
      match lows.getLast?, highs.head? with
      | some l, some h => l ≤ b && b ≤ h
      | _, _ => false

/-- All ends of a byte sequence, itself among them. -/
def ends : Bytes → List Bytes
  | [] => [[]]
  | b :: bs => (b :: bs) :: ends bs

/-- The ends that follow a slash. -/
def endsBehindSlash : Bytes → List Bytes
  | [] => []
  | b :: bs => if b = slash then bs :: endsBehindSlash bs else endsBehindSlash bs

def dropLead : (lead : Bytes) → Bytes → List Bytes
  | [], bs => [bs]
  | _ :: _, [] => []
  | a :: lead, b :: bs => if a = b then dropLead lead bs else []

namespace Part

mutual

/-- What can be left of the bytes behind the part. -/
def rests : Part → Bytes → List Bytes
  | literal c, bs => dropLead (String.utf8EncodeChar c) bs
  | one, bs => if bs.isEmpty then [] else [bs.tail]
  | anything, bs => ends bs
  | set negated ranges, bs =>
    match bs with
    | [] => []
    | b :: bs => if ranges.any (fun (l, h) => inRange b l h) != negated then [bs] else []
  | starsFirst, bs => bs :: endsBehindSlash bs
  | starsBetween, bs =>
    match bs with
    | [] => []
    | b :: bs => if b = slash then bs :: endsBehindSlash bs else []
  | starsLast, bs =>
    match bs with
    | [] => []
    | b :: bs => if b = slash then ends bs else []
  | oneOf alternatives, bs => if alternatives.isEmpty then [bs] else restsOfAny alternatives bs

/-- What can be left behind all the parts, for any of several beginnings. -/
def restsOfAll : List Part → List Bytes → List Bytes
  | [], states => states
  | p :: ps, states => restsOfAll ps (states.flatMap (rests p)).eraseDups

def restsOfAny : List (List Part) → Bytes → List Bytes
  | [], _ => []
  | ps :: alternatives, bs => restsOfAll ps [bs] ++ restsOfAny alternatives bs

end

end Part
end Glob

structure Glob where
  parts : List Glob.Part

namespace Glob

/-- A text that cannot be read as a pattern. -/
structure Malformed where
  pattern : Text
deriving DecidableEq, Repr

def Malformed.message (_ : Malformed) : String := "embedded-sqlfmt exclude pattern error"

/-- Reads a pattern. Two stars alone match every text. -/
def ofText? (t : Text) : Option Glob := do
  match ← parts? [] [] none (← symbols? none t) with
  | [.starsFirst] => some ⟨[.anything]⟩
  | parts => some ⟨parts⟩

def accepts (g : Glob) (t : Text) : Bool := (Part.restsOfAll g.parts [bytesOf t]).contains []

end Glob

namespace Exclusion

/-- What any of the patterns accepts. -/
def ofGlobs (globs : List Glob) : Exclusion := fun t => globs.any (·.accepts t)

/-- Every pattern must be readable. -/
def ofPatterns : Reader Glob.Malformed := fun patterns =>
  (patterns.mapM fun p =>
    match Glob.ofText? p with
    | some g => Except.ok g
    | none => .error (Glob.Malformed.mk p)).map ofGlobs

end Exclusion
end HostSql
