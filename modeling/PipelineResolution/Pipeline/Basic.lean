import PipelineResolution.Pipeline.Param
import PipelineResolution.Pipeline.Plan

/-!
# Pipelines

A pipeline declares parameters, steps and outputs. All of its problems are reported together; its
dependencies are checked once everything else is in order.
-/
namespace PipelineResolution

structure Pipeline where
  name : String
  title : Option String := none
  description : Option String := none
  params : List Param := []
  steps : List Step := []
  outputs : List NamedOutput := []
  location : Location

namespace Pipeline

def ofName (name : String) : Pipeline := { name, location := .ofPath ("pipeline." ++ name) }

def param? (p : Pipeline) (name : String) : Option Param := p.params.find? (·.name == name)

def output? (p : Pipeline) (name : String) : Option NamedOutput := p.outputs.find? (·.name == name)

def step? (p : Pipeline) (fullName : String) : Option Step :=
  p.steps.find? (·.fullName == fullName)

def plan (p : Pipeline) : Except PlanError (List (List Step)) := Plan.waves p.steps

/-- The reports on dependencies that no step of the pipeline has as its name. -/
def unknownSteps (p : Pipeline) (owner : String) (location : Location)
    (dependencies : DependencySet) : Diagnostics :=
  (dependencies.steps.filter fun target => (p.step? target).isNone).map fun target =>
    (Diagnostic.error "Unknown step" (owner ++ " depends on step \"" ++ target
      ++ "\", which is not declared in pipeline \"" ++ p.name ++ "\".")).about location

/-- The reports on dependencies of steps and outputs that the pipeline does not declare. -/
def checkDependencies (p : Pipeline) : Diagnostics :=
  p.steps.flatMap (fun s =>
    p.unknownSteps ("Step \"" ++ s.fullName ++ "\"") s.location s.dependencies)
  ++ p.outputs.flatMap fun o =>
    p.unknownSteps ("Output \"" ++ o.name ++ "\"") o.location o.dependencies

def checkCycle (p : Pipeline) : Diagnostics :=
  match p.plan with
  | .error (.cycle step) =>
    [(Diagnostic.validation "Dependency cycle" (PlanError.cycle step).detail).about p.location]
  | _ => []

def duplicate (what name : String) (location : Location) : Diagnostic :=
  (Diagnostic.error ("Duplicate " ++ what) ("A " ++ what ++ " named \"" ++ name
    ++ "\" was already declared in this pipeline.")).about location

/-- The text of an attribute that has to be known when the document is read. -/
def staticText (a : Attribute) (ctx : ResolutionContext) : Except Diagnostics String :=
  match (a.resolve ctx).outcome with
  | .resolved (.string text) => .ok text
  | .resolved v => .error [(Diagnostic.error "Incorrect attribute value type" ("The pipeline "
      ++ a.name ++ " must be a string, got " ++ v.typeName ++ ".")).about a.location]
  | .deferred => .error [(Diagnostic.error "Invalid pipeline attribute" ("The pipeline " ++ a.name
      ++ " must be known before the pipeline runs.")).about a.location]
  | .failed ds => .error ds

def setAttribute (ctx : ResolutionContext) (p : Pipeline) (a : Attribute) :
    Pipeline × Diagnostics :=
  let put (set : String → Pipeline) : Pipeline × Diagnostics :=
    match staticText a ctx with
    | .ok text => (set text, [])
    | .error ds => (p, ds)
  match a.name with
  | "title" => put fun text => { p with title := some text }
  | "description" => put fun text => { p with description := some text }
  | _ => (p, [])

/-- Adds what an inner block declares, unless its name is taken. -/
def declare (p : Pipeline) (what : String) (b : Block) (decoded : Except Diagnostics α)
    (name : α → String) (taken : String → Bool) (add : α → Pipeline) : Pipeline × Diagnostics :=
  match decoded with
  | .ok a => if taken (name a) then (p, [duplicate what (name a) b.location]) else (add a, [])
  | .error ds => (p, ds)

def addBlock (ctx : ResolutionContext) (p : Pipeline) (b : Block) : Pipeline × Diagnostics :=
  match b.type with
  | "param" => p.declare b.type b (Param.ofBlock b ctx) Param.name (p.param? · |>.isSome)
      fun a => { p with params := p.params ++ [a] }
  | "step" => p.declare b.type b (Step.ofBlock b p.name ctx) Step.fullName (p.step? · |>.isSome)
      fun s => { p with steps := p.steps ++ [s] }
  | "output" => p.declare b.type b (NamedOutput.ofBlock b ctx) NamedOutput.name
      (p.output? · |>.isSome) fun o => { p with outputs := p.outputs ++ [o] }
  | _ => (p, [b.unsupportedBlock "pipeline"])

def ofBlock (b : Block) (ctx : ResolutionContext) : Except Diagnostics Pipeline :=
  match b.label? 0 with
  | none => .error [(Diagnostic.error "Missing name for pipeline"
      "A pipeline block needs a name label.").about b.location]
  | some name =>
    let unsupported := b.unsupportedAttributes ["title", "description"]
    let (p, described) := Diagnostics.gather (setAttribute ctx) { name, location := b.location }
      b.attributes
    let (p, declared) := Diagnostics.gather (addBlock ctx) p b.blocks
    let ds := unsupported ++ described ++ declared
    if ds.hasErrors then .error ds
    else Diagnostics.orValue (ds ++ p.checkDependencies ++ p.checkCycle) p

def bind (p : Pipeline) (arguments : Dict Value) : Except Diagnostics (Dict Value) :=
  let (bound, ds) := Diagnostics.gather (fun (bound : Dict Value) (param : Param) =>
    match param.bind (arguments.get? param.name) with
    | .ok v => (bound.insert param.name v, [])
    | .error d => (bound, [d])) [] p.params
  let undeclared := (arguments.keys.filter fun name => (p.param? name).isNone).map fun name =>
    (Diagnostic.error "Unknown param" ("Pipeline \"" ++ p.name
      ++ "\" does not declare a param named \"" ++ name ++ "\".")).about p.location
  Diagnostics.orValue (ds ++ undeclared) bound

/-- What expressions see of a pipeline. -/
def objectOf (name : String) (title description : Option String) : Value :=
  .ofEntries ([("name", .string name)] ++ (title.map fun s => ("title", .string s)).toList
    ++ (description.map fun s => ("description", .string s)).toList)

def toValue (p : Pipeline) : Value := objectOf p.name p.title p.description

end Pipeline
end PipelineResolution
