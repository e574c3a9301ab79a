import HostSql.Config
import HostSql.Layout.Lines

/-! The last touches on formatted SQL: names of known functions are cased like keywords, and the
body of a clause moves up to the line of the clause. -/
namespace HostSql.Layout

open Sql (Token)

/-- Functions whose names are cased like keywords. -/
def knownFunctions : List String := [
  "ABS", "APPROX_COUNT_DISTINCT", "ARRAY", "ARRAY_CONTAINS", "AVG", "CAST", "CEIL", "COALESCE",
  "COLLECT_LIST", "COLLECT_SET", "CONCAT", "CONCAT_WS", "COUNT", "DATEDIFF", "DATE_ADD",
  "DATE_FORMAT", "DATE_SUB", "DATE_TRUNC", "DAY", "DENSE_RANK", "EXPLODE", "FIRST", "FIRST_VALUE",
  "FLOOR", "FROM_UNIXTIME", "GREATEST", "HOUR", "IF", "IFNULL", "INSTR", "LAG", "LAST",
  "LAST_VALUE", "LEAD", "LEAST", "LENGTH", "LOWER", "LPAD", "LTRIM", "MAP", "MAX", "MIN", "MINUTE",
  "MONTH", "NAMED_STRUCT", "NTILE", "NULLIF", "NVL", "PERCENTILE", "PERCENTILE_APPROX", "RANK",
  "REGEXP_EXTRACT", "REGEXP_REPLACE", "REPLACE", "ROUND", "ROW_NUMBER", "RPAD", "RTRIM", "SIZE",
  "SPLIT", "STDDEV", "STRUCT", "SUBSTR", "SUBSTRING", "SUM", "TO_DATE", "TO_TIMESTAMP", "TRIM",
  "UNIX_TIMESTAMP", "UPPER", "VARIANCE", "YEAR"]

/-- Clauses that keep their first target on their own line. The rest of the body moves up one
level with it. -/
def targetClauses : List String := ["FROM", "UPDATE", "INSERT INTO", "DELETE FROM", "MERGE INTO"]

/-- Clauses that are joined with their body only when the body is one line. -/
def shortClauses : List String := ["GROUP BY", "ORDER BY", "PARTITION BY", "LIMIT"]

def isKnownFunction (t : Text) : Bool := knownFunctions.contains (String.ofList t.upper)

/-- The texts of tokens, names of known functions before a parenthesis cased like keywords. -/
def recase (uppercase : Bool) : List Token → List Text
  | [] => []
  | k :: ks =>
    let called := k.kind == .word && ks.head?.any (·.isSymbol "(") && isKnownFunction k.text
    (if called then (if uppercase then k.text.upper else k.text.lower) else k.text) ::
      recase uppercase ks

def indentWidth (t : Text) : Nat := t.indentation.length

/-- A line that belongs to the clause at the given depth. -/
def isNested (depth : Nat) (line : Line) : Bool :=
  line.continued || (!line.text.isBlankLine && indentWidth line.text > depth)

/-- A line that can be moved behind its clause: neither a comment nor one item of several. -/
def canMerge (line : Line) : Bool :=
  let t := line.text.trim
  !line.continued && (Text.strip? ['-', '-'] t).isNone && (Text.strip? ['/', '*'] t).isNone &&
    t.getLast? != some ','

/-- Moves a line up one level, but not beyond the depth of its clause. -/
def dedent (unit depth : Nat) (line : Line) : Line :=
  if line.continued then line
  else { line with text := line.text.drop (min unit (indentWidth line.text - depth)) }

/-- A clause joined with the first line of its body, and the lines that then follow. -/
def merge? (unit : Nat) (clause : Line) (rest : List Line) : Option (Line × List Line) :=
  let keyword := String.ofList clause.text.trim.upper
  let target := targetClauses.contains keyword
  if clause.continued || !(target || shortClauses.contains keyword) then none
  else
    let depth := indentWidth clause.text
    match rest.takeWhile (isNested depth) with
    | [] => none
    | first :: body =>
      if (target || body.isEmpty) && canMerge first then
        some ({ clause with text := clause.text.trimEnd ++ ' ' :: first.text.trimStart },
          body.map (dedent unit depth) ++ rest.dropWhile (isNested depth))
      else none

theorem length_of_merge {unit : Nat} {clause line : Line} {rest more : List Line}
    (h : merge? unit clause rest = some (line, more)) : more.length < rest.length := by
  unfold merge? at h
  dsimp only at h
  split at h
  · cases h
  · split at h
    · cases h
    · next first body hb =>
      split at h
      · cases h
        have sum := congrArg List.length
          (List.takeWhile_append_dropWhile
            (p := isNested (indentWidth clause.text)) (l := rest))
        rw [hb] at sum
        simp only [List.length_append, List.length_cons, List.length_map] at sum ⊢
        omega
      · cases h

def joinClauses (unit : Nat) (lines : List Line) : List Line :=
  match lines with
  | [] => []
  | line :: rest =>
    match _h : merge? unit line rest with
    | some (line, more) => line :: joinClauses unit more
    | none => line :: joinClauses unit rest
termination_by lines.length
decreasing_by
  · have := length_of_merge _h
    simp only [List.length_cons]
    omega
  · simp

/-- Formatted SQL with its last touches. A text that has no tokens stays as it is. -/
def refine (d : Dialect) (c : Config) (sql : Text) : Text :=
  match tokenize d sql with
  | none => sql
  | some tokens =>
    let text := (recase c.uppercase (tokens.map (·.token))).flatten
    let lines := linesWith text (tokens.map (·.span))
    Text.ofLines ((joinClauses c.indent lines).map (·.text))

end HostSql.Layout
