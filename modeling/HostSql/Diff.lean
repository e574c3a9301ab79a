import HostSql.Text.Basic

/-! Differences between two texts, line by line. The script with the fewest removed and added lines
is found from both ends at once; added lines are then moved down past equal ones as far as
possible. -/
namespace HostSql.Diff

inductive Tag where
  | kept
  | removed
  | added
deriving DecidableEq, Repr

/-- Consecutive lines that share their fate. -/
structure Run where
  tag : Tag
  lines : List Text
deriving DecidableEq, Repr

/-- A way to compare an old text with a new one, line by line. -/
abbrev Differ := Text → Text → List Run

/-- The lines of a text with their line breaks. A carriage return breaks the line like a line feed,
and both together break it once. -/
def lines : Text → List Text
  | [] => []
  | '\r' :: '\n' :: t => ['\r', '\n'] :: lines t
  | c :: t =>
    if c == '\n' || c == '\r' then [c] :: lines t
    else
      match lines t with
      | [] => [[c]]
      | l :: ls => (c :: l) :: ls

/-- The number of lines that both lists start with. -/
def common : List Text → List Text → Nat
  | a :: as, b :: bs => if a = b then common as bs + 1 else 0
  | _, _ => 0

/-! The search. A position is a pair of counts: lines of the old text and lines of the new one that
have been passed. On diagonal `k` the old lines passed exceed the new ones by `k`. -/

/-- The farthest that is reached on a diagonal: where its last stretch of equal lines begins and
ends, as counts of old lines. -/
structure Reach where
  diagonal : Int
  first : Nat
  last : Nat

/-- The number of equal lines from a position on. -/
def stretch (old new : Array Text) (x y : Nat) : Nat :=
  if h : x < old.size ∧ y < new.size then
    if old[x] = new[y] then stretch old new (x + 1) (y + 1) + 1 else 0
  else 0
termination_by old.size - x

def reachFrom (old new : Array Text) (diagonal : Int) (x : Nat) : Reach :=
  ⟨diagonal, x, x + stretch old new x (x - diagonal).toNat⟩

/-- The next step on the diagonal between two neighbours: a removal from the lower one, or an
addition from the upper one if that has come farther. -/
def next (upper lower : Option Nat) : Nat :=
  match upper, lower with
  | some u, some l => if l < u then u else l + 1
  | some u, none => u
  | none, some l => l + 1
  | none, none => 0

/-- What is reached with one more removal or addition, from the highest diagonal to the lowest. -/
def advance (old new : Array Text) (steps : Nat) (reached : List Reach) : List Reach :=
  let uppers := none :: reached.map (some ·.last)
  let lowers := reached.map (some ·.last) ++ [none]
  (uppers.zip lowers).mapIdx fun i (u, l) =>
    reachFrom old new ((steps : Int) - 2 * i) (next u l)

def lastAt? (reached : List Reach) (diagonal : Int) : Option Nat :=
  (reached.find? (·.diagonal = diagonal)).map (·.last)

/-- A reach that meets one from the other end, whose diagonals are counted from there. -/
def meeting? (old new : Array Text) (here there : List Reach) : Option Reach :=
  here.find? fun r =>
    match lastAt? there ((old.size : Int) - new.size - r.diagonal) with
    | some x => old.size ≤ r.last + x
    | none => false

/-- The position at which the two searches meet. -/
def middle? (old new : Array Text) : Option (Nat × Nat) :=
  let odd := (old.size + new.size) % 2 = 1
  let dlo := old.reverse
  let wen := new.reverse
  let rec search (fuel steps : Nat) (forward backward : List Reach) : Option (Nat × Nat) :=
    match fuel with
    | 0 => none
    | fuel + 1 =>
      let forward := advance old new steps forward
      match if odd then meeting? old new forward backward else none with
      | some r => some (r.first, (r.first - r.diagonal).toNat)
      | none =>
        let backward := advance dlo wen steps backward
        match if odd then none else meeting? old new backward forward with
        | some r => some (old.size - r.last, new.size - (r.last - r.diagonal).toNat)
        | none => search fuel (steps + 1) forward backward
  search ((old.size + new.size + 1) / 2 + 1) 0 [] []

def run (tag : Tag) (ls : List Text) : List Run := if ls.isEmpty then [] else [⟨tag, ls⟩]

/-- Splits at the middle until one side is empty. -/
def script : (fuel : Nat) → (old new : List Text) → List Run
  | 0, old, new => run .removed old ++ run .added new
  | fuel + 1, old, new =>
    let head := common old new
    let a := old.drop head
    let b := new.drop head
    let tail := common a.reverse b.reverse
    let a := a.take (a.length - tail)
    let b := b.take (b.length - tail)
    let inner :=
      if a.isEmpty || b.isEmpty then run .removed a ++ run .added b
      else
        match middle? a.toArray b.toArray with
        | some (x, y) =>
          script fuel (a.take x) (b.take y) ++ script fuel (a.drop x) (b.drop y)
        | none => run .removed a ++ run .added b
    run .kept (old.take head) ++ inner ++ run .kept (old.drop (old.length - tail))

/-! Moving. The runs before the one at hand are listed from the nearest on. -/

/-- Moves added lines up past equal ones as long as the line above is their last line. Gives the
equal lines that stay above (from the nearest on), the added lines, and the equal lines that are now
below. -/
def slideUp : List Text → List Text → List Text → List Text × List Text × List Text
  | [], added, passed => ([], added, passed)
  | l :: above, added, passed =>
    if added.getLast? = some l then slideUp above (l :: added.dropLast) (l :: passed)
    else (l :: above, added, passed)

/-- Moves added lines down past equal ones. Gives the equal lines that stay below, the added lines,
and the equal lines that are now above, from the nearest on. -/
def slideDown : List Text → List Text → List Text → List Text × List Text × List Text
  | [], added, passed => ([], added, passed)
  | l :: below, added, passed =>
    if added.head? = some l then slideDown below (added.tail ++ [l]) (l :: passed)
    else (l :: below, added, passed)

def addKeptBelow (ls : List Text) (after : List Run) : List Run :=
  match after with
  | ⟨.kept, more⟩ :: rest => ⟨.kept, ls ++ more⟩ :: rest
  | after => run .kept ls ++ after

def addKeptAbove (ls : List Text) (before : List Run) : List Run :=
  match before with
  | ⟨.kept, more⟩ :: rest => ⟨.kept, more ++ ls⟩ :: rest
  | before => run .kept ls ++ before

structure Focus where
  before : List Run
  this : Run
  after : List Run

def moveUp (before : List Run) (this : Run) (after : List Run) : Focus :=
  match before with
  | [] => ⟨[], this, after⟩
  | ⟨tag, ls⟩ :: rest =>
    if tag = this.tag then moveUp rest ⟨tag, ls ++ this.lines⟩ after
    else if tag ≠ .kept then moveUp rest this (⟨tag, ls⟩ :: after)
    else if this.tag = .removed then ⟨before, this, after⟩
    else
      let (above, added, passed) := slideUp ls.reverse this.lines []
      let this := { this with lines := added }
      let after := addKeptBelow passed after
      if above.isEmpty then moveUp rest this after
      else ⟨⟨.kept, above.reverse⟩ :: rest, this, after⟩

def moveDown (before : List Run) (this : Run) (after : List Run) : Focus :=
  match after with
  | [] => ⟨before, this, []⟩
  | ⟨tag, ls⟩ :: rest =>
    if tag = this.tag then moveDown before ⟨tag, this.lines ++ ls⟩ rest
    else if tag ≠ .kept then moveDown (⟨tag, ls⟩ :: before) this rest
    else if this.tag = .removed then ⟨before, this, after⟩
    else
      let (below, added, passed) := slideDown ls this.lines []
      let this := { this with lines := added }
      let before := addKeptAbove passed.reverse before
      if below.isEmpty then moveDown before this rest
      else ⟨before, this, ⟨.kept, below⟩ :: rest⟩

/-- Moves each run with the tag up and then down, so that it joins others of its kind. -/
def settle (tag : Tag) (runs : List Run) : List Run :=
  go (runs.countP (·.tag = tag)) [] runs
where
  go : Nat → List Run → List Run → List Run
    | 0, before, after => before.reverse ++ after
    | n + 1, before, after =>
      match after.dropWhile (·.tag ≠ tag) with
      | [] => before.reverse ++ after
      | this :: rest =>
        let before := (after.takeWhile (·.tag ≠ tag)).reverse ++ before
        let up := moveUp before this rest
        let down := moveDown up.before up.this up.after
        go n (down.this :: down.before) down.after

/-- Removals before additions wherever both stand between kept lines. -/
def ordered (removed added : List Text) : List Run → List Run
  | [] => run .removed removed ++ run .added added
  | ⟨.removed, ls⟩ :: rest => ordered (removed ++ ls) added rest
  | ⟨.added, ls⟩ :: rest => ordered removed (added ++ ls) rest
  | ⟨.kept, ls⟩ :: rest =>
    run .removed removed ++ run .added added ++ ⟨.kept, ls⟩ :: ordered [] [] rest

def runs : Differ := fun old new =>
  let a := lines old
  let b := lines new
  ordered [] [] (settle .added (settle .removed (script (a.length + b.length + 1) a b)))

/-! Printing. -/

def Tag.mark : Tag → Char
  | kept => ' '
  | removed => '-'
  | added => '+'

def escape (code : String) : Text := '\x1b' :: '[' :: code.toList ++ ['m']

/-- The escape sequences that set the colour of a line. -/
def Tag.colour : Tag → Text
  | kept => escape "0"
  | removed => escape "0" ++ escape "31"
  | added => escape "0" ++ escape "32"

/-- A last line without a line break gets one. -/
def endLine (l : Text) : Text :=
  match l.getLast? with
  | some '\n' | some '\r' => l
  | _ => l ++ ['\n']

def printLine (coloured : Bool) (tag : Tag) (l : Text) : Text :=
  let line := tag.mark :: endLine l
  if coloured then tag.colour ++ line ++ escape "0" else line

/-- All lines under the name of the file. -/
def print (differ : Differ) (coloured : Bool) (name old new : Text) : Text :=
  "--- ".toList ++ name ++ "\n+++ ".toList ++ name ++ ['\n'] ++
    (differ old new).flatMap fun r => r.lines.flatMap (printLine coloured r.tag)

end HostSql.Diff
