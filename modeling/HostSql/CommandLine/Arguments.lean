import HostSql.Files.Path

/-! Arguments of the command line. Options and files can stand in any order; behind two dashes
everything is a file. -/
namespace HostSql.CommandLine

/-- An option without a value. -/
inductive Switch where
  | check
  | diff
  | verbose
  | quiet
  | noProgressBar
  | forceColour
  | noColour
  | singleProcess
  | debug
  | noUppercase
  | noPretty
deriving DecidableEq, Repr

/-- An option with a value. -/
inductive Setting where
  | exclude
  | threads
  | config
  | dialect
  | indent
  | callName
  | magicMarker
deriving DecidableEq, Repr

inductive OptionKind where
  | switch (s : Switch)
  | setting (s : Setting)
  | version
deriving DecidableEq, Repr

namespace OptionKind

def longNames : List (String × OptionKind) := [
  ("check", .switch .check), ("diff", .switch .diff), ("verbose", .switch .verbose),
  ("quiet", .switch .quiet), ("no-progressbar", .switch .noProgressBar),
  ("force-color", .switch .forceColour), ("no-color", .switch .noColour),
  ("single-process", .switch .singleProcess), ("debug", .switch .debug),
  ("no-uppercase", .switch .noUppercase), ("no-pretty", .switch .noPretty),
  ("exclude", .setting .exclude), ("threads", .setting .threads), ("config", .setting .config),
  ("dialect", .setting .dialect), ("indent", .setting .indent), ("call", .setting .callName),
  ("magic", .setting .magicMarker), ("version", .version)]

def shortNames : List (Char × OptionKind) := [
  ('v', .switch .verbose), ('q', .switch .quiet), ('t', .setting .threads),
  ('d', .setting .dialect), ('i', .setting .indent), ('V', .version)]

end OptionKind

/-- What the arguments say, one after the other. -/
inductive Word where
  | switch (s : Switch)
  | setting (s : Setting) (value : Text)
  | file (path : Text)
  | version
  /-- An option that is not known, or a value too few or too many. -/
  | fault
deriving DecidableEq, Repr

/-- An argument of its own can be a value unless it looks like an option. -/
def isValue (argument : Text) : Bool := argument.head? != some '-' || argument == ['-']

/-- The options of a cluster of short ones, and the setting that takes the next argument. A setting
takes what is left of the cluster, behind an equals sign or without one. -/
def readCluster : Text → List Word × Option Setting
  | [] => ([], none)
  | c :: rest =>
    match OptionKind.shortNames.lookup c with
    | some (.switch s) =>
      let (words, open?) := readCluster rest
      (.switch s :: words, open?)
    | some .version => ([.version], none)
    | some (.setting s) =>
      match rest with
      | [] => ([], some s)
      | '=' :: value => ([.setting s value], none)
      | value => ([.setting s value], none)
    | none => ([.fault], none)

/-- A long option: its name, and the value behind an equals sign. -/
def splitLong (t : Text) : Text × Option Text :=
  match t.dropWhile (· != '=') with
  | [] => (t, none)
  | _ :: value => (t.takeWhile (· != '='), some value)

/-- The words of the arguments. `open?` is the setting that waits for its value. -/
def readWords : (open? : Option Setting) → List Text → List Word
  | none, [] => []
  | some _, [] => [.fault]
  | some s, argument :: rest =>
    if isValue argument then .setting s argument :: readWords none rest else [.fault]
  | none, argument :: rest =>
    match argument with
    | ['-', '-'] => rest.map .file
    | '-' :: '-' :: t =>
      let (name, value?) := splitLong t
      match OptionKind.longNames.lookup (String.ofList name), value? with
      | some (.switch s), none => .switch s :: readWords none rest
      | some .version, none => .version :: readWords none rest
      | some (.setting s), some value => .setting s value :: readWords none rest
      | some (.setting s), none => readWords (some s) rest
      | _, _ => .fault :: readWords none rest
    | '-' :: c :: t =>
      let (words, open?) := readCluster (c :: t)
      words ++ readWords open? rest
    | path => .file path :: readWords none rest

structure Options where
  /-- Files and directories, or a single dash for standard input. -/
  files : List Path := []
  switches : List Switch := []
  exclude : List Text := []
  threads : Option Nat := none
  config : Option Path := none
  dialect : Option String := none
  indent : Option Nat := none
  callName : Option String := none
  magicMarker : Option String := none

namespace Options

def has (o : Options) (s : Switch) : Bool := o.switches.contains s

def greatestCount : Nat := 18446744073709551615

/-- Counts are written with decimal digits, behind a plus sign if one likes, and fit in 64 bits. -/
def count? (t : Text) : Option Nat :=
  let digits := if t.head? == some '+' then t.tail else t
  if digits.isEmpty || !digits.all Char.isDigit then none
  else
    let n := digits.foldl (fun sum c => 10 * sum + (c.toNat - 48)) 0
    if n ≤ greatestCount then some n else none

def path? (t : Text) : Option Path := if t.isEmpty then none else some ⟨t⟩

/-- Gives a value that is not given yet. -/
def once {α : Type} (old : Option α) (new : Option α) : Option (Option α) :=
  if old.isSome then none else new.map some

/-- The options with one more value. Only patterns can be given more than once. -/
def set? (o : Options) (s : Setting) (value : Text) : Option Options :=
  let text := String.ofList value
  match s with
  | .exclude => some { o with exclude := o.exclude ++ [value] }
  | .threads => (once o.threads (count? value)).map ({ o with threads := · })
  | .config => (once o.config (path? value)).map ({ o with config := · })
  | .dialect => (once o.dialect (some text)).map ({ o with dialect := · })
  | .indent => (once o.indent (count? value)).map ({ o with indent := · })
  | .callName => (once o.callName (some text)).map ({ o with callName := · })
  | .magicMarker => (once o.magicMarker (some text)).map ({ o with magicMarker := · })

end Options

/-- What the arguments ask for. -/
inductive Request where
  | unusable
  | version
  | work (o : Options)

namespace Request

/-- The first fault ends the reading, and so does the question for the version. At least one file
is needed. -/
def ofWords (o : Options) : List Word → Request
  | [] => if o.files.isEmpty then unusable else work o
  | .fault :: _ => unusable
  | .version :: _ => version
  | .switch s :: rest =>
    if o.has s then unusable else ofWords { o with switches := s :: o.switches } rest
  | .setting s value :: rest =>
    match o.set? s value with
    | some o => ofWords o rest
    | none => unusable
  | .file path :: rest =>
    match Options.path? path with
    | some p => ofWords { o with files := o.files ++ [p] } rest
    | none => unusable

def ofArguments (arguments : List Text) : Request := ofWords {} (readWords none arguments)

end Request
end HostSql.CommandLine
