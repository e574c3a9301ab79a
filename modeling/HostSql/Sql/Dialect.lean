import HostSql.Text.Letters
import HostSql.Text.Basic

/-! The SQL dialects, their names, and what they read as a word, a string or a quoted name. -/
namespace HostSql

inductive Dialect where
  | ansi
  | bigQuery
  | clickHouse
  | databricks
  | duckDb
  | generic
  | hive
  | msSql
  | mySql
  | postgreSql
  | redshift
  | snowflake
  | sqlite
deriving DecidableEq, Repr, Inhabited

namespace Dialect

/-- The dialects by their own names. -/
def names : List (String × Dialect) := [
  ("generic", generic), ("mysql", mySql), ("postgresql", postgreSql), ("postgres", postgreSql),
  ("hive", hive), ("sqlite", sqlite), ("snowflake", snowflake), ("redshift", redshift),
  ("mssql", msSql), ("clickhouse", clickHouse), ("bigquery", bigQuery), ("ansi", ansi),
  ("duckdb", duckDb), ("databricks", databricks)]

/-- The names a configuration is meant to give, and the dialects' own names for them. -/
def aliases : List (String × String) := [
  ("spark", "databricks"), ("spark2", "databricks"), ("databricks", "databricks"),
  ("hive", "hive"), ("ansi", "ansi"), ("generic", "generic"), ("postgres", "postgresql"),
  ("postgresql", "postgresql"), ("redshift", "redshift"), ("mysql", "mysql"),
  ("sqlite", "sqlite"), ("snowflake", "snowflake"), ("bigquery", "bigquery"),
  ("duckdb", "duckdb"), ("clickhouse", "clickhouse"), ("mssql", "mssql"), ("tsql", "mssql")]

/-- The names of the dialects that fragments are usually written in. -/
def recommended : List String := ["spark", "spark2", "databricks"]

/-- Names are told apart without regard to the case of ASCII letters. -/
def fold (name : String) : String := String.ofList (Text.lower name.toList)

def isKnown (name : String) : Bool := (aliases.lookup (fold name)).isSome

def isRecommended (name : String) : Bool := recommended.contains (fold name)

/-- The dialect with that name of its own, in any case. The Kelvin sign is the one letter beyond
ASCII whose lower case is an ASCII letter. -/
def ofOwnName? (name : String) : Option Dialect :=
  names.lookup ((fold name).map fun c => if c == '\u212a' then 'k' else c)

/-- The dialect that a configuration names; the generic one for a name that is not known. -/
def ofName (name : String) : Dialect :=
  (ofOwnName? ((aliases.lookup (fold name)).getD (fold name))).getD generic

/-- Starts a name between quotes. -/
def opensQuotedName : Dialect → Char → Bool
  | databricks, c | mySql, c | bigQuery, c => c == '\x60'
  | postgreSql, c => c == '"'
  | redshift, c | msSql, c => c == '"' || c == '['
  | sqlite, c => c == '\x60' || c == '"' || c == '['
  | _, c => c == '"' || c == '\x60'

def closesQuotedName (c : Char) : Char := if c == '[' then ']' else c

def startsWord : Dialect → Char → Bool
  | generic, c | msSql, c => isLetter c || c == '_' || c == '#' || c == '@'
  | postgreSql, c | duckDb, c => isLetter c || c == '_'
  | redshift, c => isLetter c || c == '_' || c == '#'
  | databricks, c | snowflake, c | clickHouse, c => c.isAlpha || c == '_'
  | bigQuery, c => c.isAlpha || c == '_' || c == '@'
  | ansi, c => c.isAlpha
  | hive, c => c.isAlphanum || c == '$'
  | mySql, c =>
    c.isAlpha || c == '_' || c == '$' || c == '@' || ('\x80' ≤ c && c ≤ '\uffff')
  | sqlite, c => c.isAlpha || c == '_' || ('\x7f' ≤ c && c ≤ '\uffff')

def continuesWord : Dialect → Char → Bool
  | generic, c | msSql, c =>
    isLetter c || c.isDigit || c == '@' || c == '$' || c == '#' || c == '_'
  | postgreSql, c | duckDb, c => isLetter c || c.isDigit || c == '$' || c == '_'
  | redshift, c => isLetter c || c.isDigit || c == '$' || c == '_' || c == '#'
  | databricks, c | clickHouse, c | bigQuery, c | ansi, c => c.isAlphanum || c == '_'
  | snowflake, c => c.isAlphanum || c == '$' || c == '_'
  | hive, c => c.isAlphanum || c == '_' || c == '$' || c == '\x7b' || c == '\x7d'
  | mySql, c => startsWord mySql c || c.isDigit
  | sqlite, c => startsWord sqlite c || c.isDigit

/-- A backslash in a string protects the character after it. -/
def escapesWithBackslash : Dialect → Bool
  | mySql | bigQuery | snowflake | clickHouse => true
  | _ => false

def hasTripleQuotes (d : Dialect) : Bool := d == bigQuery

/-- Marks before a quote that make a byte string. -/
def hasByteStrings : Dialect → Bool
  | bigQuery | generic => true
  | _ => false

def hasRawStrings : Dialect → Bool
  | bigQuery | generic => true
  | _ => false

def hasUnicodeStrings : Dialect → Bool
  | postgreSql | generic => true
  | _ => false

/-- A number directly followed by letters is a word. -/
def wordsStartWithDigits : Dialect → Bool
  | hive | mySql => true
  | _ => false

def hasHashComments : Dialect → Bool
  | snowflake | bigQuery | mySql | hive => true
  | _ => false

def hasSlashComments (d : Dialect) : Bool := d == snowflake

/-- Two slashes divide without a remainder. -/
def dividesWithSlashes : Dialect → Bool
  | duckDb | generic => true
  | _ => false

/-- Characters that lengthen an operator to one that users define. -/
def continuesOperator : Dialect → Char → Bool
  | postgreSql, c =>
    ['+', '-', '*', '/', '<', '>', '=', '~', '!', '@', '#', '%', '^', '&', '|', '\x60', '?'].contains c
  | _, _ => false

end Dialect
end HostSql
