import HostSql.Text.Quoted
import HostSql.Transform

/-! What a transformation reports on its way, as data. Debug events are recorded only where the
configuration asks for them. -/
namespace HostSql

inductive Event where
  | skippedCall (offset : Nat) (reason : Refusal)
  | located (found : Nat)
  | replaced (start : Nat) (kind : Fragment.Kind)
  | leftUnchanged (start : Nat) (kind : Fragment.Kind) (reason : Unchanged)
  | rescanDiffers (before after : Nat)
  | invalidConfig (fault : ConfigFault)
  | abandoned (error : IntegrityError)
  | configUpdated (config : Config)
  | unknownDialect (name : String)
  | unsupportedDialect (name : String)
  | loadingConfig (path : String)
deriving DecidableEq, Repr

/-- The names under which kinds and reasons are reported. -/
def Fragment.Kind.label : Fragment.Kind → String
  | call => "CallArgument"
  | block => "MagicBlock"

def Refusal.label : Refusal → String
  | notCalled => "NotCalled"
  | notLiteral => "NotLiteral"
  | bytesLiteral => "BytesLiteral"
  | unterminated => "Unterminated"
  | extraArguments => "ExtraArguments"

/-- A configuration on one line. -/
def Config.describe (c : Config) : String :=
  "SqlConfig \x7b dialect: " ++ quoted c.dialect ++ ", indent: " ++ toString c.indent ++
    ", uppercase: " ++ toString c.uppercase ++ ", pretty: " ++ toString c.pretty ++
    ", debug: " ++ toString c.debug ++ ", call_name: " ++ quoted c.callName ++
    ", magic_marker: " ++ quoted c.magicMarker ++ " \x7d"

def ConfigFault.fullMessage (f : ConfigFault) : String :=
  "embedded-sqlfmt config error: " ++ f.message

namespace Event

inductive Level where
  | debug
  | warn
deriving DecidableEq, Repr

def Level.label : Level → String
  | debug => "DEBUG"
  | warn => "WARN"

inductive Field where
  | number (n : Nat)
  | text (s : String)
deriving DecidableEq, Repr

def level : Event → Level
  | rescanDiffers .. | invalidConfig .. | abandoned .. | unknownDialect ..
  | unsupportedDialect .. => .warn
  | _ => .debug

def message : Event → String
  | skippedCall .. => "skipped SQL call"
  | located .. => "located SQL candidates"
  | replaced .. => "rewrote SQL candidate"
  | leftUnchanged .. => "left SQL candidate unchanged"
  | rescanDiffers .. => "rewritten buffer re-scans differently"
  | invalidConfig .. => "invalid configuration, leaving buffer unchanged"
  | abandoned .. => "abandoning transformation"
  | configUpdated .. => "configuration updated"
  | unknownDialect .. => "unknown dialect, parsing with the generic grammar"
  | unsupportedDialect .. => "dialect may not be fully supported"
  | loadingConfig .. => "loading configuration"

def fields : Event → List (String × Field)
  | skippedCall offset reason => [("offset", .number offset), ("reason", .text reason.label)]
  | located found => [("found", .number found)]
  | replaced start kind => [("start", .number start), ("kind", .text kind.label)]
  | leftUnchanged start kind reason =>
    [("start", .number start), ("kind", .text kind.label), ("reason", .text reason.message)]
  | rescanDiffers before after => [("before", .number before), ("after", .number after)]
  | invalidConfig fault => [("error", .text fault.fullMessage)]
  | abandoned error => [("error", .text error.message)]
  | configUpdated c => [("config", .text c.describe)]
  | unknownDialect name => [("dialect", .text name)]
  | unsupportedDialect name =>
    [("dialect", .text name),
      ("recommended",
        .text ("[" ++ ", ".intercalate (Dialect.recommended.map quoted) ++ "]"))]
  | loadingConfig path => [("path", .text path)]

/-- Calls passed over while looking for fragments. -/
def ofLocate (c : Config) (t : Text) : List Event :=
  if c.debug then
    ((Locator.ofConfig c).findings t).filterMap fun
      | .fragment _ => none
      | .refused offset reason => some (skippedCall offset reason)
  else []

/-- What became of the fragments, in the order in which they were put in: the last one first. -/
def ofOutcomes (c : Config) (os : List Splice.Outcome) : List Event :=
  if c.debug then
    os.reverse.map fun
      | (f, .ok _) => replaced f.content.start f.kind
      | (f, .error reason) => leftUnchanged f.content.start f.kind reason
  else []

def ofSplice (format : Formatter) (c : Config) (buffer : Text) (fs : List Fragment) : List Event :=
  if (Splice.fault? buffer 0 fs).isSome then []
  else ofOutcomes c (Splice.outcomes format c buffer fs)

def ofVerify (c : Config) (fragments : List Fragment) (output : Text) : List Event :=
  ofLocate c output ++
    match verify c fragments output with
    | .error (.callsChanged before after) => [rescanDiffers before after]
    | _ => []

def ofTransform (format : Formatter) (c : Config) (buffer : Text) : List Event :=
  match c.fault? with
  | some fault => [invalidConfig fault]
  | none =>
    let fs := (Locator.ofConfig c).locate buffer
    let found := ofLocate c buffer ++ if c.debug then [located fs.length] else []
    if fs.isEmpty then found
    else
      found ++ ofSplice format c buffer fs ++
        match splice format c buffer fs with
        | .error e => [abandoned e]
        | .ok s =>
          if s.replaced = 0 then []
          else
            ofVerify c fs s.text ++
              match verify c fs s.text with
              | .error e => [abandoned e]
              | .ok () => []

/-- Warnings about the dialect of a configuration without faults. -/
def ofValidate (c : Config) : List Event :=
  if c.fault?.isSome then []
  else if !Dialect.isKnown c.dialect then [unknownDialect c.dialect]
  else if !Dialect.isRecommended c.dialect then [unsupportedDialect c.dialect]
  else []

end Event
end HostSql
