import HostSql.Toml.Scan

/-! Numbers and points in time. -/
namespace HostSql.Toml.Number

/-- Digits in which a low line may stand between two of them; the low lines are dropped. -/
def moreDigits (isDigit : Char → Bool) : Text → Text × Text
  | '_' :: c :: t =>
    if isDigit c then
      let (digits, rest) := moreDigits isDigit t
      (c :: digits, rest)
    else ([], '_' :: c :: t)
  | c :: t =>
    if isDigit c then
      let (digits, rest) := moreDigits isDigit t
      (c :: digits, rest)
    else ([], c :: t)
  | [] => ([], [])

def digits (isDigit : Char → Bool) : Scan Text := do
  let first ← Scan.one isDigit
  let more ← (fun s => some (moreDigits isDigit s) : Scan Text)
  return first :: more

def sign : Scan Text := fun
  | '+' :: t => some (['+'], t)
  | '-' :: t => some (['-'], t)
  | t => some ([], t)

/-- A decimal number without needless zeros at the beginning. -/
def whole : Scan Text := do
  match ← Scan.peek with
  | some '0' =>
    Scan.lead ['0']
    return ['0']
  | _ => digits Char.isDigit

def valueOf (base : Nat) (t : Text) : Nat :=
  t.foldl (fun sum c =>
    let digit :=
      if c.isDigit then c.toNat - 48 else if 'a' ≤ c then c.toNat - 87 else c.toNat - 55
    base * sum + digit) 0

/-- Whole numbers have 64 bits and a sign. -/
def least : Int := -9223372036854775808

def greatest : Int := 9223372036854775807

def bounded (n : Int) : Scan Value :=
  if least ≤ n ∧ n ≤ greatest then return .integer n else failure

def based (lead : String) (base : Nat) (isDigit : Char → Bool) : Scan Value := do
  Scan.lead lead.toList
  bounded (valueOf base (← digits isDigit))

def isHexDigit (c : Char) : Bool :=
  c.isDigit || ('a' ≤ c && c ≤ 'f') || ('A' ≤ c && c ≤ 'F')

def decimal : Scan Value := do
  let negative := (← sign) == ['-']
  let n := valueOf 10 (← whole)
  bounded (if negative then -n else n)

def integer : Scan Value :=
  based "0x" 16 isHexDigit <|> based "0o" 8 (fun c => '0' ≤ c && c ≤ '7') <|>
    based "0b" 2 (fun c => c == '0' || c == '1') <|> decimal

def exponent : Scan Text := do
  let e ← Scan.one fun c => c == 'e' || c == 'E'
  let s ← sign
  return e :: s ++ (← digits Char.isDigit)

def fraction : Scan Text := do
  Scan.lead ['.']
  return '.' :: (← digits Char.isDigit)

/-- A number with a fraction, an exponent, or both. -/
def float : Scan Value := do
  let s ← sign
  let special : Scan Text :=
    (do Scan.lead "inf".toList; return "inf".toList) <|>
      (do Scan.lead "nan".toList; return "nan".toList)
  match ← Scan.opt special with
  | some name => return .float (s ++ name)
  | none =>
    let n ← whole
    match ← Scan.opt fraction with
    | some f =>
      let e ← Scan.opt exponent
      return .float (s ++ n ++ f ++ e.getD [])
    | none => return .float (s ++ n ++ (← exponent))

/-- A number of `n` digits from `low` to `high`. -/
def fixed (n low high : Nat) : Scan Nat := fun s =>
  let digits := s.take n
  let value := valueOf 10 digits
  if digits.length = n ∧ digits.all Char.isDigit ∧ low ≤ value ∧ value ≤ high then
    some (value, s.drop n)
  else none

def daysOf (year month : Nat) : Nat :=
  if month = 2 then
    if year % 4 = 0 ∧ (year % 100 ≠ 0 ∨ year % 400 = 0) then 29 else 28
  else if month = 4 ∨ month = 6 ∨ month = 9 ∨ month = 11 then 30
  else 31

def date : Scan Date := do
  let year ← fixed 4 0 9999
  Scan.lead ['-']
  let month ← fixed 2 1 12
  Scan.lead ['-']
  let day ← fixed 2 1 (daysOf year month)
  return ⟨year, month, day⟩

/-- Digits of a fraction of a second behind the ninth are dropped. -/
def nanosecond : Scan Nat := do
  Scan.lead ['.']
  let first ← Scan.one Char.isDigit
  let written := (first :: (← Scan.run Char.isDigit)).take 9
  return valueOf 10 (written ++ List.replicate (9 - written.length) '0')

def time : Scan Time := do
  let hour ← fixed 2 0 23
  Scan.lead [':']
  let minute ← fixed 2 0 59
  Scan.lead [':']
  let second ← fixed 2 0 60
  return ⟨hour, minute, second, (← Scan.opt nanosecond).getD 0⟩

def offset : Scan Offset := do
  let c ← Scan.one fun c => c == 'Z' || c == 'z' || c == '+' || c == '-'
  if c == 'Z' || c == 'z' then return .universal
  let hours ← fixed 2 0 23
  Scan.lead [':']
  let n : Int := 60 * hours + (← fixed 2 0 59)
  return .minutes (if c == '-' then -n else n)

def timeOfDay : Scan (Time × Option Offset) := do
  let _ ← Scan.one fun c => c == 'T' || c == 't' || c == ' '
  return (← time, ← Scan.opt offset)

def moment : Scan Value :=
  (do
    let d ← date
    match ← Scan.opt timeOfDay with
    | some (t, o) => return .moment ⟨d, t, o⟩
    | none => return .moment { date := d }) <|>
  (do return .moment { time := ← time })

end HostSql.Toml.Number
