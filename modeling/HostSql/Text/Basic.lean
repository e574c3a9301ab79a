/-! Text as a list of characters. Positions in a text are counted in bytes of its UTF-8 encoding,
so a position can lie outside the text or inside a character; cuts are made at the last character
border that does not exceed it. Blanks are the characters with the Unicode property White_Space;
the zero-width space and the byte-order mark are none. -/
namespace HostSql

/-- The characters with the property White_Space. -/
def isBlank (c : Char) : Bool :=
  ('\t' ≤ c && c ≤ '\r') || c == ' ' || c == '\u0085' || c == '\u00a0' || c == '\u1680' ||
    ('\u2000' ≤ c && c ≤ '\u200a') || c == '\u2028' || c == '\u2029' || c == '\u202f' ||
    c == '\u205f' || c == '\u3000'

/-- Blanks that indent a line. -/
def isIndent (c : Char) : Bool := c == ' ' || c == '\t'

theorem isBlank_of_isIndent {c : Char} (h : isIndent c = true) : isBlank c = true := by
  simp only [isIndent, Bool.or_eq_true, beq_iff_eq] at h
  rcases h with rfl | rfl <;> decide

/-- The class contains every character that the core library calls white space. -/
theorem isBlank_of_isWhitespace {c : Char} (h : c.isWhitespace = true) : isBlank c = true := by
  simp only [Char.isWhitespace, Bool.or_eq_true, decide_eq_true_eq] at h
  rcases h with ((rfl | rfl) | rfl) | rfl <;> decide

abbrev Text := List Char

/-- A range of byte positions, `start` included and `stop` not. -/
structure Span where
  start : Nat
  stop : Nat
deriving DecidableEq, Repr, Inhabited

/-- The number of bytes in the range. -/
def Span.length (s : Span) : Nat := s.stop - s.start

namespace Text

/-- Length of the UTF-8 encoding. -/
def size : Text → Nat
  | [] => 0
  | c :: t => c.utf8Size + size t

/-- The longest beginning of the text that takes at most `n` bytes, and the rest. -/
def cutAt : Nat → Text → Text × Text
  | _, [] => ([], [])
  | n, c :: t =>
    if c.utf8Size ≤ n then
      let (head, tail) := cutAt (n - c.utf8Size) t
      (c :: head, tail)
    else ([], c :: t)

def before (t : Text) (n : Nat) : Text := (cutAt n t).1

def after (t : Text) (n : Nat) : Text := (cutAt n t).2

/-- Byte position `n` lies between two characters or at an end of the text. -/
def isBorder (t : Text) (n : Nat) : Bool := size (t.before n) == n

def slice (t : Text) (s : Span) : Text := after (t.before s.stop) s.start

/-- The pieces between the characters that satisfy `p`; there is always one more piece than there
are such characters. -/
def splitWhere (p : Char → Bool) : Text → List Text
  | [] => [[]]
  | c :: t =>
    if p c then [] :: splitWhere p t
    else match splitWhere p t with
      | [] => [[c]]
      | piece :: pieces => (c :: piece) :: pieces

/-- The lines of a text, without their line breaks. -/
def lines (t : Text) : List Text := t.splitWhere (· == '\n')

def ofLines (ls : List Text) : Text := List.intercalate ['\n'] ls

/-- The words of a text: its longest pieces without blanks. -/
def words (t : Text) : List Text := (t.splitWhere isBlank).filter (!·.isEmpty)

def dropTrailing (p : Char → Bool) (t : Text) : Text := (t.reverse.dropWhile p).reverse

def trimStart (t : Text) : Text := t.dropWhile isBlank

def trimEnd (t : Text) : Text := t.dropTrailing isBlank

def trim (t : Text) : Text := t.trimStart.trimEnd

/-- A line that holds nothing but blanks. -/
def isBlankLine (t : Text) : Bool := t.all isBlank

/-- The indentation that the text starts with. -/
def indentation (t : Text) : Text := t.takeWhile isIndent

/-- What follows `lead`, if the text starts with it. -/
def strip? : Text → Text → Option Text
  | [], t => some t
  | _ :: _, [] => none
  | a :: lead, b :: t => if a = b then strip? lead t else none

/-- What stands before and after the first occurrence of `needle`. -/
def splitFirst? (needle : Text) : Text → Option (Text × Text)
  | [] => if needle.isEmpty then some ([], []) else none
  | c :: t =>
    match strip? needle (c :: t) with
    | some rest => some ([], rest)
    | none => (splitFirst? needle t).map fun (before, after) => (c :: before, after)

/-- What stands before and after `needle`, if looking on behind its first occurrence finds no
other. -/
def splitOnly? (needle : Text) (t : Text) : Option (Text × Text) :=
  match splitFirst? needle t with
  | some (before, after) =>
    if (splitFirst? needle after).isNone then some (before, after) else none
  | none => none

/-- Puts `new` in place of the occurrences of `old`, from left to right. Characters of an occurrence
that are still to be passed are counted in `pending`. -/
def replaceFrom (old new : Text) : (pending : Nat) → Text → Text
  | _, [] => []
  | pending + 1, _ :: t => replaceFrom old new pending t
  | 0, c :: t =>
    if (strip? old (c :: t)).isSome then new ++ replaceFrom old new (old.length - 1) t
    else c :: replaceFrom old new 0 t

/-- Puts `new` in place of `old`, which is not empty. -/
def replace (t old new : Text) : Text := replaceFrom old new 0 t

def occursIn (needle t : Text) : Bool := (splitFirst? needle t).isSome

/-- Upper case of the ASCII letters; every other character stays. -/
def upper (t : Text) : Text := t.map Char.toUpper

/-- Lower case of the ASCII letters; every other character stays. -/
def lower (t : Text) : Text := t.map Char.toLower

end Text
end HostSql
