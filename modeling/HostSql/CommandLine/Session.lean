import HostSql.CommandLine.Arguments
import HostSql.Event
import HostSql.Files.Glob
import HostSql.Run
import HostSql.Settings
import HostSql.Standard

/-! What a call of the command line does: it answers with an exit code and two texts, and leaves a
workspace behind. -/
namespace HostSql

/-- A run with the formatter, the comparison and the patterns of the command line. -/
def Workspace.run : RunOptions → Workspace → List Path → Except Glob.Malformed Outcome :=
  runWith .standard Diff.runs Exclusion.ofPatterns

namespace CommandLine

/-- All that a call can see. -/
structure Surroundings where
  workspace : Workspace
  /-- Where the user's own settings would lie. -/
  userSettings : Option Path := none
  input : ByteArray := ⟨#[]⟩
  /-- The environment asks for texts without colour. -/
  noColour : Bool := false

structure Answer where
  code : Nat
  output : Text := []
  /-- What goes to standard error. -/
  notes : Text := []
  workspace : Workspace

def version : String := "embedded-sqlfmt 0.1.0\n"

def usage : String := "usage: embedded-sqlfmt [options] files...\n"

/-- The colour that the switches and the environment ask for; forcing it beats the rest. -/
def wantsColour (force no environment : Bool) : Bool := force || (!no && !environment)

/-- An error with its causes. -/
def errorText (messages : List String) : Text :=
  ("Error: " ++ ": ".intercalate messages ++ "\n").toList

def configurationError (messages : List String) : List String :=
  "Configuration error" :: messages

/-- The settings of the file, with those of the command line in their place. -/
def applyOptions (o : Options) (s : Settings) : Settings :=
  { config :=
      { s.config with
        dialect := o.dialect.getD s.config.dialect
        indent := o.indent.getD s.config.indent
        callName := o.callName.getD s.config.callName
        magicMarker := o.magicMarker.getD s.config.magicMarker
        uppercase := s.config.uppercase && !o.has .noUppercase
        pretty := s.config.pretty && !o.has .noPretty
        debug := s.config.debug || o.has .debug }
    exclude := if o.exclude.isEmpty then s.exclude else o.exclude }

/-- The settings of a call, without faults. -/
def settings (e : Surroundings) (o : Options) : Except (List String) Settings :=
  match Settings.load e.workspace e.userSettings o.files o.config with
  | .error fault => .error (configurationError fault.messages)
  | .ok s =>
    let s := applyOptions o s
    match s.config.fault? with
    | some fault => .error (configurationError [fault.fullMessage])
    | none => .ok s

def fromInput (e : Surroundings) (o : Options) (c : Config) : Answer :=
  match String.fromUTF8? e.input with
  | none =>
    { code := 2
      notes := errorText ["Error reading stdin", ReadFault.notUtf8.message]
      workspace := e.workspace }
  | some source =>
    let t := transform .standard c source.toList
    { code := if o.has .check && t.changed then 1 else 0
      output := t.text
      workspace := e.workspace }

def runOptions (e : Surroundings) (o : Options) (s : Settings) : RunOptions :=
  { config := s.config
    exclude := s.exclude
    check := o.has .check
    diff := o.has .diff
    coloured := wantsColour (o.has .forceColour) (o.has .noColour) e.noColour && !e.noColour
    singleProcess := o.has .singleProcess
    threads := o.threads.getD 0 }

/-- Differences come first, then what became of each file, the summary, and the errors. -/
def notes (o : Options) (r : Outcome) : Text :=
  let report := r.report
  let each := if o.has .verbose then report.results.filterMap (·.line?) else []
  let told := if o.has .quiet then [] else each ++ [report.summary]
  let errors := report.results.filterMap (·.errorLine?)
  r.diff ++ (told ++ errors).flatMap fun line => line.toList ++ ['\n']

def fromFiles (e : Surroundings) (o : Options) (s : Settings) : Answer :=
  match e.workspace.run (runOptions e o s) o.files with
  | .error fault => { code := 2, notes := errorText [fault.message], workspace := e.workspace }
  | .ok r =>
    { code := if r.report.hasErrors then 2 else if o.has .check && r.report.hasChanges then 1 else 0
      notes := notes o r
      workspace := r.workspace }

def work (e : Surroundings) (o : Options) : Answer :=
  match settings e o with
  | .error messages => { code := 2, notes := errorText messages, workspace := e.workspace }
  | .ok s => if o.files = [⟨['-']⟩] then fromInput e o s.config else fromFiles e o s

def answer (e : Surroundings) : Request → Answer
  | .unusable => { code := 2, notes := usage.toList, workspace := e.workspace }
  | .version => { code := 0, output := version.toList, workspace := e.workspace }
  | .work o => work e o

end CommandLine
end HostSql
