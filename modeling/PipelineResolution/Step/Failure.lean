import PipelineResolution.Resolution.Attribute
import PipelineResolution.Step.Field

/-!
# Failure policies and throws

An `error` block says what becomes of a step that failed. A `throw` block fails a step that ran, when
a predicate over its result holds.
-/
namespace PipelineResolution

structure FailurePolicy where
  condition : Option Bool := none
  ignore : Bool := false
  retries : Int := 0
  deriving DecidableEq, Inhabited

namespace FailurePolicy

def fields : List (Field FailurePolicy) := [
  ⟨"if", .flag, (·.condition), fun b p => { p with condition := some b }⟩,
  ⟨"ignore", .flag, fun p => some p.ignore, fun b p => { p with ignore := b }⟩,
  ⟨"retries", .integer, fun p => some p.retries, fun n p => { p with retries := n }⟩]

def ofValues (values : Dict Value) (location : Location) : Except Diagnostics FailurePolicy :=
  let (p, ds) := Field.fill fields ["if"] location values {}
  let broken :=
    if p.retries < 0 then
      [(Diagnostic.validation "Invalid error configuration" "retries must not be negative.").about
        (location.child "retries")]
    else []
  Diagnostics.orValue (ds ++ broken) p

/-- Whether the failure is swallowed. -/
def ignores (p : FailurePolicy) : Bool := p.ignore && p.condition != some false

def ofBlock (b : Block) (ctx : ResolutionContext) : Resolution FailurePolicy :=
  let unsupported := b.unsupportedAttributes (Field.names fields)
  if !unsupported.isEmpty then .failed unsupported
  else (b.resolveBody (ctx.within .error)).refine (ofValues · b.location)

def evaluate (b : Block) (env : Environment) : Except Diagnostics FailurePolicy := do
  ofValues (← b.evaluateBody env) b.location

def toJson (p : FailurePolicy) : Json :=
  Json.ofFields (Dict.field "if_condition" Json.bool p.condition
    ++ [("ignore", .bool p.ignore), ("retries", .int p.retries)])

end FailurePolicy

/-- A throw is decided when the document is read, or its body is kept for run time. -/
inductive Throw where
  | decided (fires : Option Bool) (message : Option String)
  | deferred (body : Block)

namespace Throw

private structure Decision where
  fires : Option Bool := none
  message : Option String := none

private def fields : List (Field Decision) := [
  ⟨"if", .flag, (·.fires), fun b d => { d with fires := some b }⟩,
  ⟨"message", .text, (·.message), fun s d => { d with message := some s }⟩]

def ofValues (values : Dict Value) (location : Location) : Except Diagnostics Throw :=
  let (d, ds) := Field.fill fields ["message"] location values {}
  Diagnostics.orValue ds (.decided d.fires d.message)

def ofBlock (b : Block) (ctx : ResolutionContext) : Except Diagnostics (Throw × DependencySet) :=
  let ds := b.unsupportedAttributes (Field.names fields)
    ++ if (b.attribute? "if").isNone then [b.missingArgument "if"] else []
  if !ds.isEmpty then .error ds
  else
    let r := b.resolveBody (ctx.within .throw)
    match r.outcome with
    | .resolved values => (ofValues values b.location).map fun t => (t, r.dependencies)
    | .deferred => .ok (.deferred b, r.dependencies)
    | .failed ds => .error ds

/-- The throw at run time, where every body can be evaluated. -/
def evaluate (t : Throw) (env : Environment) : Except Diagnostics Throw :=
  match t with
  | .decided .. => .ok t
  | .deferred b => do ofValues (← b.evaluateBody env) b.location

/-- Whether the step is failed. A throw that is not decided never fires. -/
def fires : Throw → Bool
  | .decided (some true) _ => true
  | _ => false

def body? : Throw → Option Block
  | .decided .. => none
  | .deferred b => some b

def toJson : Throw → Json
  | .decided fires message =>
    Json.ofFields (Dict.field "enabled_when" Json.bool fires
      ++ Dict.field "message" Json.string message ++ [("unresolved", .bool false)])
  | .deferred _ => Json.ofFields [("unresolved", .bool true)]

end Throw
end PipelineResolution
