import PipelineResolution.Resolution.Attribute
import PipelineResolution.AttributeType

/-!
# Attributes of triggers

An attribute of a trigger or of a capture is known when the document is read or evaluated each time
the trigger fires.
-/
namespace PipelineResolution

/-- The attributes decoded so far: the known values, the deferred expressions, the dependencies. -/
structure Settled where
  values : Dict Value := []
  deferred : Dict Expression := []
  dependencies : DependencySet := .empty

namespace Settled

/-- Resolves an attribute; its value is refined before it counts as known. -/
def add (ctx : ResolutionContext) (refine : Attribute → Value → Except Diagnostic Value) (s : Settled)
    (a : Attribute) : Settled × Diagnostics :=
  let r := a.resolve ctx
  let s := { s with dependencies := s.dependencies.merge r.dependencies }
  match r.outcome with
  | .resolved v =>
    match refine a v with
    | .ok v => ({ s with values := s.values.insert a.name v }, [])
    | .error d => (s, [d])
  | .deferred => ({ s with deferred := s.deferred.insert a.name a.expression }, [])
  | .failed ds => (s, ds)

def addStatic (ctx : ResolutionContext) (s : Settled) (a : Attribute) : Settled × Diagnostics :=
  match (a.resolve ctx).outcome with
  | .resolved v => ({ s with values := s.values.insert a.name v }, [])
  | .deferred => (s, [(Diagnostic.error "Invalid trigger attribute" ("The trigger attribute \""
      ++ a.name ++ "\" must be known before the trigger runs.")).about a.location])
  | .failed ds => (s, ds)

def holds (s : Settled) (name : String) : Bool := s.values.contains name || s.deferred.contains name

end Settled

/-- The arguments for one firing: a map, empty when none are declared. -/
def evaluateArguments (known : Option (Dict Value)) (deferred : Dict Expression) (location : Location)
    (env : Environment) : Except Diagnostics (Dict Value) := do
  let location := location.child "args"
  let value ← match deferred.get? "args", known with
    | some e, _ => (e.evaluate env).mapError (Diagnostics.orAbout · location)
    | none, known => .ok (.map (known.getD []))
  (AttributeType.map.convert "args" value).mapError fun m => [m.toDiagnostic location]

end PipelineResolution
