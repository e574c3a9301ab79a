import HostSql.Toml.Number
import HostSql.Toml.Quoted
import HostSql.Toml.Tables

/-! Documents: lines of keys with values, under headers of tables. -/
namespace HostSql.Toml

namespace Scan

def isKeyChar (c : Char) : Bool := c.isAlphanum || c == '_' || c == '-'

def bareKey : Scan Text := do
  let first ← one isKeyChar
  return first :: (← run isKeyChar)

def simpleKey : Scan Text := Quoted.short <|> bareKey

/-- Further parts of a key, each behind a dot. -/
def moreKeys : Nat → Scan (List Text)
  | 0 => failure
  | n + 1 => do
    spaces
    match ← opt (lead ['.']) with
    | none => return []
    | some () =>
      spaces
      let key ← simpleKey
      return key :: (← moreKeys n)

/-- How deep values may stand in one another, and how many parts a key may have. -/
def deepest : Nat := 79

def key : Scan (List Text) := do
  spaces
  let first ← simpleKey
  let keys := first :: (← moreKeys ((← get).length + 1))
  if keys.length ≤ deepest then return keys else failure

def scalar : Scan Value := do
  match ← peek with
  | some '"' | some '\'' => return .string (← Quoted.string)
  | some 't' =>
    lead "true".toList
    return .boolean true
  | some 'f' =>
    lead "false".toList
    return .boolean false
  | _ => Number.moment <|> Number.float <|> Number.integer

/-- The elements of an array up to its end; a comma may stand behind the last one. -/
def elements (element : Scan Value) : Nat → Scan (List Value)
  | 0 => failure
  | n + 1 => do
    gaps
    if (← opt (lead [']'])).isSome then return []
    let v ← element
    gaps
    if (← opt (lead [','])).isSome then return v :: (← elements element n)
    lead [']']
    return [v]

def array (element : Scan Value) : Scan Value := do
  lead ['[']
  return .array (← elements element ((← get).length + 1))

def pair (element : Scan Value) : Scan (List Text × Value) := do
  let keys ← key
  lead ['=']
  spaces
  let v ← element
  return (keys, v)

/-- The pairs between braces up to the closing one, behind which no comma stands. -/
def pairs (element : Scan Value) : Nat → Scan (List (List Text × Value))
  | 0 => failure
  | n + 1 => do
    let first ← pair element
    spaces
    if (← opt (lead [','])).isSome then return first :: (← pairs element n)
    lead ['\x7d']
    return [first]

def inlineTable (element : Scan Value) : Scan Value := do
  lead ['\x7b']
  spaces
  if (← opt (lead ['\x7d'])).isSome then return .table []
  match Table.ofPairs? (← pairs element ((← get).length + 1)) with
  | some t => return .table t
  | none => failure

/-- A value in which others stand at most `depth` levels deep. -/
def value : (depth : Nat) → Scan Value
  | 0 => scalar
  | depth + 1 => do
    match ← peek with
    | some '[' => array (value depth)
    | some '\x7b' => inlineTable (value depth)
    | _ => scalar

end Scan

inductive Expression where
  | pair (keys : List Text) (v : Value)
  | table (keys : List Text)
  | element (keys : List Text)

namespace Scan

def header : Scan Expression := do
  lead ['[']
  if (← opt (lead ['['])).isSome then
    let keys ← key
    lead [']', ']']
    lineEnd
    return .element keys
  let keys ← key
  lead [']']
  lineEnd
  return .table keys

def expressions : Nat → Scan (List Expression)
  | 0 => failure
  | n + 1 => do
    spaces
    match ← peek with
    | none => return []
    | some '#' | some '\n' | some '\r' =>
      lineEnd
      expressions n
    | some '[' =>
      let e ← header
      return e :: (← expressions n)
    | some _ =>
      let (keys, v) ← pair (value deepest)
      lineEnd
      return .pair keys v :: (← expressions n)

end Scan

/-- A document while it is read: its items, and the header under which the next lines stand. -/
structure Document where
  items : Items := []
  header : List Text := []

namespace Document

def add (d : Document) : Expression → Option Document
  | .pair keys v =>
    (Items.atHeader (Items.giveDotted keys v) d.header d.items).map ({ d with items := · })
  | .table keys => (Items.openTable keys d.items).map (⟨·, keys⟩)
  | .element keys => (Items.openElement keys d.items).map (⟨·, keys⟩)

end Document

/-- The table that a document stands for, or nothing if the text is no document. A byte-order mark
may come first. -/
def parse? (t : Text) : Option Table := do
  let t := (Text.strip? ['\ufeff'] t).getD t
  let (expressions, rest) ← Scan.expressions (t.length + 1) t
  if rest.isEmpty then
    let d ← expressions.foldlM Document.add {}
    return Item.valuesOfEntries d.items
  else none

end HostSql.Toml
