import HostSql.Host.Literal

/-! A piece of SQL that stands in host source. -/
namespace HostSql

inductive Fragment.Kind where
  /-- The only string argument of a call. -/
  | call
  /-- The lines after a marker line. -/
  | block
deriving DecidableEq, Repr, Inhabited

structure Fragment where
  kind : Fragment.Kind
  /-- What a replacement takes the place of: the whole literal, or the lines of the block. -/
  span : Span
  content : Span
  /-- The SQL as it is written between the delimiters or on the lines. -/
  raw : Text
  marks : Text
  quote : Option Quote
  interpolated : Bool
deriving DecidableEq, Repr, Inhabited

namespace Fragment

/-- The argument of a call: a literal at byte position `start`. -/
def ofLiteral (start : Nat) (l : Literal) : Fragment :=
  let first := start + Text.size (l.marks ++ l.quote.delimiter)
  { kind := .call
    span := ⟨start, start + Text.size l.text⟩
    content := ⟨first, first + Text.size l.body⟩
    raw := l.body
    marks := l.marks
    quote := some l.quote
    interpolated := Literal.marksInterpolate l.marks }

/-- A block of lines at byte position `start`. -/
def ofBlock (start : Nat) (raw : Text) : Fragment :=
  { kind := .block
    span := ⟨start, start + Text.size raw⟩
    content := ⟨start, start + Text.size raw⟩
    raw
    marks := []
    quote := none
    interpolated := false }

end Fragment
end HostSql
