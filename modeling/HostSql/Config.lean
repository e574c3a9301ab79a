import HostSql.Text.Basic

/-! The settings of one transformation. -/
namespace HostSql

structure Config where
  /-- Name of the SQL dialect that fragments are written in. -/
  dialect : String := "spark"
  /-- Columns per level of indentation. -/
  indent : Nat := 4
  /-- Keywords in upper case; in lower case otherwise. -/
  uppercase : Bool := true
  /-- One clause per line; everything on one line otherwise. -/
  pretty : Bool := true
  /-- Record what was found, passed over and replaced. -/
  debug : Bool := false
  /-- The call whose only string argument holds SQL. -/
  callName : String := "sql"
  /-- The line after which SQL stands on lines of its own. -/
  magicMarker : String := "%%sql"
deriving DecidableEq, Repr, Inhabited

/-- Values that no transformation can work with. -/
inductive ConfigFault where
  | indentNotPositive
  | indentTooLarge (indent : Nat)
  | callNameEmpty
  | magicMarkerEmpty
deriving DecidableEq, Repr

namespace ConfigFault

def message : ConfigFault → String
  | indentNotPositive => "indent must be a positive integer"
  | indentTooLarge n => s!"indent must be at most 255, got {n}"
  | callNameEmpty => "call_name must not be empty"
  | magicMarkerEmpty => "magic_marker must not be empty"

end ConfigFault

namespace Config

def maxIndent : Nat := 255

/-- The first fault of the settings, if they have one. -/
def fault? (c : Config) : Option ConfigFault :=
  if c.indent = 0 then some .indentNotPositive
  else if c.indent > maxIndent then some (.indentTooLarge c.indent)
  else if Text.isBlankLine c.callName.toList then some .callNameEmpty
  else if Text.isBlankLine c.magicMarker.toList then some .magicMarkerEmpty
  else none

end Config
end HostSql
