import HostSql.Toml.Value

/-! How the keys and headers of a document build its tables. A key is given once; a table that a
header has opened is not opened again, and tables that stand for themselves are not added to. -/
namespace HostSql.Toml

/-- How a table came to be. -/
inductive Origin where
  | header
  /-- On the way to the table of a header. -/
  | implied
  /-- On the way to a value, by a key with dots. -/
  | dotted
deriving DecidableEq, Repr

inductive Item where
  | value (v : Value)
  | table (origin : Origin) (entries : List (Text × Item))
  /-- The tables of an array that headers build, latest first. -/
  | tables (elements : List Item)
deriving Inhabited

abbrev Items := List (Text × Item)

namespace Item

mutual

def toValue : Item → Value
  | value v => v
  | table _ entries => .table (valuesOfEntries entries)
  | tables elements => .array (values elements).reverse

def valuesOfEntries : List (Text × Item) → Table
  | [] => []
  | e :: es => valueOfEntry e :: valuesOfEntries es

def valueOfEntry : Text × Item → Text × Value
  | (key, item) => (key, toValue item)

def values : List Item → List Value
  | [] => []
  | i :: is => toValue i :: values is

end

end Item

namespace Items

/-- Changes what a key stands for, or adds the key. -/
def change (key : Text) (f : Option Item → Option Item) : Items → Option Items
  | [] => (f none).map fun item => [(key, item)]
  | (k, item) :: rest =>
    if k = key then (f (some item)).map fun item => (k, item) :: rest
    else (change key f rest).map ((k, item) :: ·)

/-- A key that is there already is not given again. -/
def give (key : Text) (v : Value) : Items → Option Items :=
  change key fun
    | none => some (.value v)
    | some _ => none

/-- Changes the table that the keys of a header lead to; of an array they lead into the latest
table. -/
def atHeader (f : Items → Option Items) : List Text → Items → Option Items
  | [], items => f items
  | key :: keys, items =>
    change key (fun
      | none => (atHeader f keys []).map (.table .implied)
      | some (.table origin inner) => (atHeader f keys inner).map (.table origin)
      | some (.tables (.table origin inner :: earlier)) =>
        (atHeader f keys inner).map fun inner => .tables (.table origin inner :: earlier)
      | some _ => none) items

/-- Changes the table that the dotted part of a key leads to. It must come from dotted keys. -/
def atDots (f : Items → Option Items) : List Text → Items → Option Items
  | [], items => f items
  | key :: keys, items =>
    change key (fun
      | none => (atDots f keys []).map (.table .dotted)
      | some (.table .header _) => none
      | some (.table origin inner) =>
        if keys.isEmpty && origin != .dotted then none
        else (atDots f keys inner).map (.table origin)
      | some (.tables (.table origin inner :: earlier)) =>
        if keys.isEmpty then none
        else (atDots f keys inner).map fun inner => .tables (.table origin inner :: earlier)
      | some _ => none) items

/-- Gives a value to a key with dots. -/
def giveDotted (keys : List Text) (v : Value) (items : Items) : Option Items :=
  match keys.getLast? with
  | some key => atDots (give key v) keys.dropLast items
  | none => none

/-- Opens the table of a header. -/
def openTable (keys : List Text) (items : Items) : Option Items :=
  match keys.getLast? with
  | some key =>
    atHeader (change key fun
      | none => some (.table .header [])
      | some (.table .implied inner) => some (.table .header inner)
      | some _ => none) keys.dropLast items
  | none => none

/-- Adds a table to the array of a header. -/
def openElement (keys : List Text) (items : Items) : Option Items :=
  match keys.getLast? with
  | some key =>
    atHeader (change key fun
      | none => some (.tables [.table .header []])
      | some (.tables elements) => some (.tables (.table .header [] :: elements))
      | some _ => none) keys.dropLast items
  | none => none

end Items

/-- The table of pairs of keys and values between braces. -/
def Table.ofPairs? (pairs : List (List Text × Value)) : Option Table :=
  (pairs.foldlM (fun items (keys, v) => Items.giveDotted keys v items) []).map
    Item.valuesOfEntries

end HostSql.Toml
