import HostSql.Event

/-! A formatter with a configuration that can be exchanged. -/
namespace HostSql

/-- The configuration in use has no faults. -/
structure Pipeline where
  config : Config
  format : Formatter
  sound : config.fault? = none

namespace Pipeline

def ofConfig (c : Config) (format : Formatter) : Except ConfigFault Pipeline :=
  match h : c.fault? with
  | some fault => .error fault
  | none => .ok ⟨c, format, h⟩

/-- Exchanges the configuration; one with a fault leaves the pipeline as it is. -/
def reconfigure (p : Pipeline) (c : Config) : Except ConfigFault Pipeline := ofConfig c p.format

def transform (p : Pipeline) (buffer : Text) : Transformed :=
  HostSql.transform p.format p.config buffer

/-- What an exchange of the configuration reports. -/
def reconfigureEvents (p : Pipeline) (c : Config) : List Event :=
  Event.ofValidate c ++
    if c.fault?.isNone && (p.config.debug || c.debug) then [.configUpdated c] else []

def describe (p : Pipeline) : String :=
  "Pipeline \x7b config: " ++ p.config.describe ++ ", .. \x7d"

end Pipeline
end HostSql
