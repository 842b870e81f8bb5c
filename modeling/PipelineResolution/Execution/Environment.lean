import PipelineResolution.Execution.Output
import PipelineResolution.Text.Identifier

/-!
# Environments

An environment binds the root names of expressions to values. Outputs of steps are bound together
under the one root `step`, first by kind and then by name.
-/
namespace PipelineResolution

structure Environment where
  bindings : Dict Value
  deriving Inhabited

namespace Environment

def empty : Environment := ⟨[]⟩

def get? (env : Environment) (name : String) : Option Value := env.bindings.get? name

/-- The value an identifier stands for: that of the last name that is spelled as this identifier. -/
def find? (env : Environment) (identifier : String) : Option Value :=
  ((env.bindings.filter fun (name, _) => Text.identifierOf name == identifier).getLast?).map (·.2)

def binds (env : Environment) (name : String) : Bool := env.bindings.contains name

def set (env : Environment) (name : String) (value : Value) : Environment :=
  ⟨env.bindings.insert name value⟩

/-- The entries of a map, or none of a value that is no map. -/
def entriesOf : Option Value → Dict Value
  | some (.map entries) => entries
  | _ => []

/-- Binds the output of a step as `step.<kind>.<name>` and keeps the outputs of all others. -/
def setStepOutput (env : Environment) (kind name : String) (output : Output) : Environment :=
  let kinds := entriesOf (env.get? "step")
  let names := entriesOf (kinds.get? kind)
  env.set "step" (.map (kinds.insert kind (.map (names.insert name output.toValue))))

/-- Binds `result` to the output of the step that has just run. -/
def withResult (env : Environment) (output : Output) : Environment :=
  env.set "result" output.toValue

end Environment
end PipelineResolution
