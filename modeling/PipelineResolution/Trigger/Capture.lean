import PipelineResolution.Keyword
import PipelineResolution.PipelineReference
import PipelineResolution.Trigger.Settled

/-!
# Captures

A query trigger reacts to changed rows: a capture names the pipeline and its arguments for one type
of change. A trigger has at most one capture of a type.
-/
namespace PipelineResolution

structure Capture where
  type : CaptureType
  pipeline : Option Value
  arguments : Option (Dict Value)
  /-- Attributes that are evaluated each time the trigger fires. -/
  deferred : Dict Expression
  location : Location

abbrev Captures := CaptureType → Option Capture

namespace Captures

def empty : Captures := fun _ => none

def set (cs : Captures) (type : CaptureType) (c : Capture) : Captures :=
  fun other => if other = type then some c else cs other

def toList (cs : Captures) : List (CaptureType × Capture) :=
  Keyword.all.filterMap fun type => (cs type).map fun c => (type, c)

end Captures

namespace Capture

def pipelineName? (c : Capture) : Option String := c.pipeline >>= Value.pipelineName?

/-- The arguments for one firing. -/
def argumentsAt (c : Capture) (env : Environment) : Except Diagnostics (Dict Value) :=
  evaluateArguments c.arguments c.deferred c.location env

def attributeNames : List String := ["pipeline", "args"]

/-- A pipeline has to be one, and arguments have to be a map. -/
def refine (a : Attribute) (v : Value) : Except Diagnostic Value :=
  if a.name == "pipeline" then
    if v.pipelineName?.isSome then .ok v else .error (.invalidPipeline a.location)
  else
    match AttributeType.map.convert a.name v with
    | .ok entries => .ok (.map entries)
    | .error m => .error (m.toDiagnostic a.location)

def ofBody (type : CaptureType) (b : Block) (ctx : ResolutionContext) :
    Capture × DependencySet × Diagnostics :=
  let (s, ds) := Diagnostics.gather (Settled.add ctx refine) {}
    (b.attributes.filter fun a => attributeNames.contains a.name)
  (⟨type, s.values.get? "pipeline", s.values.get? "args" >>= Value.map?, s.deferred, b.location⟩,
    s.dependencies,
    b.unsupportedAttributes attributeNames ++ b.blocks.map (·.unsupportedBlock "capture") ++ ds
      ++ if s.holds "pipeline" then [] else [b.missingArgument "pipeline"])

def add (ctx : ResolutionContext) (state : Captures × DependencySet) (b : Block) :
    (Captures × DependencySet) × Diagnostics :=
  let (cs, dependencies) := state
  match (b.label? 0).map (Keyword.parse CaptureType) with
  | none => (state, [(Diagnostic.error "Missing capture type"
      "A capture block needs a type label.").about b.location])
  | some (.error e) =>
    (state, [(Diagnostic.validation "Invalid capture type" e.message).about b.location])
  | some (.ok type) =>
    if (cs type).isSome then
      (state, [(Diagnostic.error "Duplicate capture" ("A capture for \"" ++ Keyword.spell type
        ++ "\" was already declared in this trigger.")).about b.location])
    else
      let (c, found, ds) := ofBody type b ctx
      ((cs.set type c, dependencies.merge found), ds)

def ofBlocks (b : Block) (ctx : ResolutionContext) : (Captures × DependencySet) × Diagnostics :=
  Diagnostics.gather (add ctx) (.empty, .empty) (b.blocksOfType "capture")

end Capture
end PipelineResolution
