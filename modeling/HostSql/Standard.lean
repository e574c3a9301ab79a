import HostSql.Layout.Comments
import HostSql.Layout.Refine
import HostSql.Pretty.Layout
import HostSql.Sql.Grammar

/-! The formatter that is used unless another one is given: SQL that the grammar of the dialect
accepts is laid out, and gets its last touches. -/
namespace HostSql

/-- One clause per line. -/
def Config.clausePerLine (c : Config) : Pretty.Options :=
  { indent := c.indent, uppercase := c.uppercase, inline := false, between := 1 }

/-- Everything on one line. -/
def Config.flat (c : Config) : Pretty.Options :=
  { c.clausePerLine with inline := true, between := 0 }

def Formatter.standard : Formatter := fun c sql =>
  let sql := sql.trim
  let d := Dialect.ofName c.dialect
  if sql.isEmpty then .error .emptyInput
  else if c.indent = 0 || Config.maxIndent < c.indent then
    .error (.invalidOption s!"indent {c.indent} is out of range")
  else match Sql.statements? d sql with
    | none => .error (.parse "sql parser error")
    | some 0 => .error .emptyInput
    | some _ =>
      if c.pretty then .ok (Layout.refine d c (Pretty.layOut c.clausePerLine sql))
      else (Layout.inlineComments d sql).map fun sql =>
        Layout.refine d c (Pretty.layOut c.flat sql)

end HostSql
