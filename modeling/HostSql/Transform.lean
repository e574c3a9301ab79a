import HostSql.Splice

/-! One pass over a buffer of host source. It never fails: whatever goes wrong, the buffer comes back
as it was. -/
namespace HostSql

structure Transformed where
  text : Text
  /-- At least one fragment was replaced, and the outcome was verified. -/
  changed : Bool
  /-- Fragments found. -/
  candidates : Nat
  replaced : Nat
deriving DecidableEq, Repr

def Transformed.unchanged (buffer : Text) (candidates : Nat) : Transformed :=
  { text := buffer, changed := false, candidates, replaced := 0 }

/-- Formats every fragment of a buffer. -/
def transform (format : Formatter) (c : Config) (buffer : Text) : Transformed :=
  if c.fault?.isSome then .unchanged buffer 0
  else
    let fs := (Locator.ofConfig c).locate buffer
    match splice format c buffer fs with
    | .error _ => .unchanged buffer fs.length
    | .ok s =>
      if s.replaced = 0 then .unchanged buffer fs.length
      else match verify c fs s.text with
        | .error _ => .unchanged buffer fs.length
        | .ok () =>
          { text := s.text, changed := true, candidates := fs.length, replaced := s.replaced }

end HostSql
