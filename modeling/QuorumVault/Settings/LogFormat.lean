import QuorumVault.Text.Blank

/-!
# Log formats

The forms in which a service may write its log.
-/

namespace QuorumVault

/-- A form of log. -/
inductive LogFormat where
  | json
  | pretty
deriving DecidableEq, Inhabited

namespace LogFormat

def shown : LogFormat → String
  | json => "Json"
  | pretty => "Pretty"

/-- The form that a setting names, with white space around it ignored and in either case. -/
def ofText? (text : String) : Except String LogFormat :=
  match Text.lowered (Text.trimmed text) with
  | "json" => .ok json
  | "pretty" => .ok pretty
  | other => .error s!"unknown log format '{other}'"

/-- The form that a setting names, or JSON. -/
def ofSetting (text : Option String) : LogFormat :=
  match text.map ofText? with
  | some (.ok format) => format
  | _ => json

end LogFormat

end QuorumVault
