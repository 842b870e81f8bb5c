import PipelineResolution.Step.Basic

/-!
# Steps at run time

With a fuller environment the engine evaluates what waited: the inputs of a step, whether it runs at
all, the collection it is repeated over, and its retry and failure policies.
-/
namespace PipelineResolution

/-- Why a step cannot be run. -/
inductive InputError where
  | missingRequired (step name : String)
  | invalidType (step : String) (mismatch : TypeMismatch)
  | invalid (step : String) (broken : Diagnostics)
  | evaluation (diagnostics : Diagnostics)

def InputError.message : InputError → String
  | .missingRequired step name =>
    "step '" ++ step ++ "': missing required attribute '" ++ name ++ "'"
  | .invalidType step m =>
    "step '" ++ step ++ "': attribute '" ++ m.name ++ "' must be " ++ m.expected ++ ", got "
      ++ m.actual
  | .invalid step broken => "step '" ++ step ++ "': " ++ broken.display
  | .evaluation ds => ds.display

namespace Step

/-- The settings and the timeout with the deferred attributes filled in so far. -/
structure Filled where
  spec : StepSpec
  timeout : Option Value
  diagnostics : Diagnostics

def Filled.put (f : Filled) (name : String) (v : Value) : Except TypeMismatch Filled :=
  match name with
  | "timeout" => .ok { f with timeout := some v }
  | "title" | "description" | "if" => .ok f
  | name => (f.spec.set name v).map fun spec => { f with spec }

/-- Fills in the deferred attributes in name order. A value of the wrong type ends it at once, and
evaluation errors are gathered. -/
def fill (s : Step) (env : Environment) (f : Filled) (entry : String × Expression) :
    Except InputError Filled :=
  match entry.2.evaluate env with
  | .ok v => (f.put entry.1 v).mapError (.invalidType s.fullName)
  | .error ds =>
    .ok { f with diagnostics := f.diagnostics ++ ds.orAbout (s.location.child entry.1) }

/-- What the engine receives for a run of the step. -/
def inputs (s : Step) (env : Environment) : Except InputError (Dict Value) := do
  let filled ← List.foldlM (s.fill env) ⟨s.spec, s.timeout, []⟩ s.deferred
  if !filled.diagnostics.isEmpty then .error (.evaluation filled.diagnostics)
  else
    match filled.spec.missing? with
    | some name => .error (.missingRequired s.fullName name)
    | none =>
      let broken := filled.spec.check s.location
      if broken.hasErrors then .error (.invalid s.fullName broken)
      else
        let inputs := filled.spec.inputs
        return match filled.timeout with
          | some timeout => inputs.insert "timeout" timeout
          | none => inputs

/-- Whether the step runs; one without a predicate always does. -/
def runs (s : Step) (env : Environment) : Except Diagnostics Bool :=
  match s.deferred.get? "if" with
  | none => .ok (s.condition.getD true)
  | some e => do
    let location := s.location.child "if"
    let v ← (e.evaluate env).mapError (Diagnostics.orAbout · location)
    (AttributeType.flag.convert "if" v).mapError fun m => [m.toDiagnostic location]

def collection (s : Step) (env : Environment) : Except Diagnostics (Option Value) :=
  match s.forEach with
  | none => .ok none
  | some e => do
    let location := s.location.child "for_each"
    let v ← (e.evaluate env).mapError (Diagnostics.orAbout · location)
    if isCollection v then return some v else .error [notACollection v location]

/-- The retry policy, decoded now if its body waited. -/
def retryPolicy (s : Step) (env : Environment) (defaults : RetryDefaults) :
    Except Diagnostics (Option RetryPolicy) :=
  match s.retry, s.deferredBodies.get? "retry" with
  | some policy, _ => .ok (some policy)
  | none, some b => (RetryPolicy.evaluate b env defaults).map some
  | none, none => .ok none

/-- The failure policy, decoded now if its body waited. -/
def failurePolicy (s : Step) (env : Environment) : Except Diagnostics (Option FailurePolicy) :=
  match s.failure, s.deferredBodies.get? "error" with
  | some policy, _ => .ok (some policy)
  | none, some b => (FailurePolicy.evaluate b env).map some
  | none, none => .ok none

end Step
end PipelineResolution
