/-! The ways the library's operations fail, each with its kind and the
message it is reported with. -/

namespace EntityGraph

/-- Why an operation failed. -/
inductive Failure where
  /-- Graph data was not valid JSON of the expected shape. -/
  | json (message : String)
  /-- A page held no graph data. -/
  | noGraphData
  /-- A settings text was not valid. -/
  | config (message : String)
  /-- A page element lacked a `data-` attribute. -/
  | missingAttribute (key : String)
  deriving DecidableEq, Repr

namespace Failure

/-- The kind of a failure. -/
def kind : Failure → String
  | .json _ => "Json"
  | .noGraphData => "NoGraphData"
  | .config _ => "Config"
  | .missingAttribute _ => "MissingAttribute"

/-- The message of a failure. -/
def message : Failure → String
  | .json m => "invalid JSON: " ++ m
  | .noGraphData => "no embedded graph data found"
  | .config m => "invalid configuration: " ++ m
  | .missingAttribute key => "missing required attribute `data-" ++ key ++ "`"

end Failure

end EntityGraph
