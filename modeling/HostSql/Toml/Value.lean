import HostSql.Text.Basic

/-! The values of a TOML document. -/
namespace HostSql.Toml

structure Date where
  year : Nat
  month : Nat
  day : Nat
deriving DecidableEq, Repr

structure Time where
  hour : Nat
  minute : Nat
  second : Nat
  nanosecond : Nat := 0
deriving DecidableEq, Repr

/-- The difference from universal time in minutes, or universal time itself. -/
inductive Offset where
  | universal
  | minutes (n : Int)
deriving DecidableEq, Repr

/-- A point in time; a date or a time can stand alone. -/
structure Moment where
  date : Option Date := none
  time : Option Time := none
  offset : Option Offset := none
deriving DecidableEq, Repr

/-- The decimal digits of `n`, at least `width` of them. -/
def padded (width n : Nat) : Text :=
  let digits := Nat.toDigits 10 n
  List.replicate (width - digits.length) '0' ++ digits

def Date.text (d : Date) : Text :=
  padded 4 d.year ++ '-' :: padded 2 d.month ++ '-' :: padded 2 d.day

/-- Zeros at the end of the fraction are left out, and so is a fraction of zeros. -/
def Time.text (t : Time) : Text :=
  padded 2 t.hour ++ ':' :: padded 2 t.minute ++ ':' :: padded 2 t.second ++
    if t.nanosecond = 0 then []
    else '.' :: Text.dropTrailing (· == '0') (padded 9 t.nanosecond)

def Offset.text : Offset → Text
  | universal => ['Z']
  | minutes n =>
    (if n < 0 then '-' else '+') :: padded 2 (n.natAbs / 60) ++ ':' :: padded 2 (n.natAbs % 60)

def Moment.text (m : Moment) : Text :=
  let date := (m.date.map Date.text).getD []
  let time := (m.time.map Time.text).getD []
  let offset := (m.offset.map Offset.text).getD []
  date ++ (if m.date.isSome && m.time.isSome then ['T'] else []) ++ time ++ offset

inductive Value where
  | string (t : Text)
  | integer (n : Int)
  | float (written : Text)
  | boolean (b : Bool)
  | moment (m : Moment)
  | array (elements : List Value)
  | table (entries : List (Text × Value))
deriving Inhabited

abbrev Table := List (Text × Value)

end HostSql.Toml
