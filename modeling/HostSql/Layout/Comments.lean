import HostSql.Formatter
import HostSql.Layout.Lines

/-! Line comments as block comments, so that the text can be put on one line without commenting out
what follows. -/
namespace HostSql.Layout

open Sql (Token)

/-- A block comment with the given text. -/
def blockComment (body : Text) : Text :=
  if body.isEmpty then ['/', '*', ' ', '*', '/'] else ['/', '*', ' '] ++ body ++ [' ', '*', '/']

/-- A token as it can stand on one line with others; nothing for a line comment that would close
the block comment too early. A line break behind the comment stays. -/
def inlined (k : Token) : Option Text :=
  match k.kind with
  | .lineComment sign =>
    let comment := k.text.drop sign
    let body := Text.trim comment
    if Text.occursIn ['*', '/'] body then none
    else some (blockComment body ++ if comment.getLast? = some '\n' then ['\n'] else [])
  | _ => some k.text

def inlineComments (d : Dialect) (sql : Text) : Except FormatError Text :=
  match tokenize d sql with
  | none => .error (.parse "cannot tokenize SQL")
  | some tokens =>
    match tokens.mapM (inlined ·.token) with
    | none => .error (.parse "line comment cannot be kept on one line")
    | some texts => .ok texts.flatten

end HostSql.Layout
