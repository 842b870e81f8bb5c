import PipelineResolution.NamedOutput
import PipelineResolution.Step.Failure
import PipelineResolution.Step.Loop
import PipelineResolution.Step.Retry

/-!
# Steps

A step is decoded from its block in one pass: what is known is stored in the typed settings, what has
to wait is kept as an expression or a raw body, and the dependencies found on the way are gathered.
-/
namespace PipelineResolution

structure Step where
  name : String
  /-- The pipeline that the step belongs to. -/
  pipeline : String
  spec : StepSpec
  title : Option String := none
  description : Option String := none
  /-- Milliseconds or a text with a unit. -/
  timeout : Option Value := none
  /-- The `if` predicate where it is known. -/
  condition : Option Bool := none
  forEach : Option Expression := none
  dependencies : DependencySet := .empty
  /-- Attributes that wait for run time. -/
  deferred : Dict Expression := []
  /-- The bodies of `retry` and `error` blocks that wait for run time, by type. -/
  deferredBodies : Dict Block := []
  retry : Option RetryPolicy := none
  failure : Option FailurePolicy := none
  throws : List Throw := []
  loop : Option Loop := none
  outputs : Dict NamedOutput := []
  location : Location
  deriving Inhabited

namespace Step

def ofKind (kind : StepKind) (name pipeline : String) : Step :=
  { name, pipeline, spec := .ofKind kind,
    location := .ofPath ("step." ++ Keyword.spell kind ++ "." ++ name) }

def kind (s : Step) : StepKind := s.spec.kind

/-- The target that other steps wait for. -/
def fullName (s : Step) : String := Keyword.spell s.kind ++ "." ++ s.name

def attributesResolved (s : Step) : Bool := s.deferred.isEmpty

/-- Nothing waits for run time, neither an attribute nor a body. -/
def isResolved (s : Step) : Bool := s.attributesResolved && s.deferredBodies.isEmpty

def depending (s : Step) (dependencies : DependencySet) : Step :=
  { s with dependencies := s.dependencies.merge dependencies }

def commonNames : List String := ["title", "description", "depends_on", "for_each", "if", "timeout"]

/-- The common attributes that only have to be stored. -/
def commonFields : List (Field Step) := [
  ⟨"title", .text, (·.title), fun t s => { s with title := some t }⟩,
  ⟨"description", .text, (·.description), fun t s => { s with description := some t }⟩,
  ⟨"if", .flag, (·.condition), fun b s => { s with condition := some b }⟩]

/-- The step that a text `step.<kind>.<name>` or `<kind>.<name>` names. -/
def edgeOfText? (text : String) : Option Edge := do
  let (kind, name) ← Text.cut "." ((Text.dropStart? "step." text).getD text)
  if (Keyword.parse StepKind kind).toBool && !name.isEmpty && !Text.contains name "." then
    return .step kind name
  else none

def addEntry (location : Location) (s : Step) (entry : Value) : Step × Diagnostics :=
  match entry.text? >>= edgeOfText? with
  | some edge => ({ s with dependencies := s.dependencies.add edge }, [])
  | none => (s, [(Diagnostic.error "Invalid depends_on" ("\"" ++ entry.display
      ++ "\" is not a step reference of the form step.<type>.<name>.")).about location])

/-- The entries of a list; any other value is its one entry. -/
def entriesOf : Value → List Value
  | .list items => items
  | v => [v]

/-- The report on a collection that cannot be gone through. -/
def notACollection (v : Value) (location : Location) : Diagnostic :=
  (Diagnostic.error "Invalid for_each argument"
    ("for_each must be a list or a map, got " ++ v.typeName ++ ".")).about location

def isCollection : Value → Bool
  | .list _ | .map _ => true
  | _ => false

def storeCommon (s : Step) (name : String) (v : Value) (location : Location) :
    Step × Diagnostics :=
  match name with
  | "timeout" =>
    ({ s with timeout := some v }, match Duration.ofValue v with
      | .ok _ => []
      | .error e => [(Diagnostic.validation "Invalid timeout" e.message).about location])
  | "for_each" => (s, if isCollection v then [] else [notACollection v location])
  | "depends_on" => Diagnostics.gather (addEntry location) s (entriesOf v)
  | name =>
    match Field.set commonFields name name v s with
    | .ok s => (s, [])
    | .error m => (s, [m.toDiagnostic location])

def defer (s : Step) (name : String) (e : Expression) : Step :=
  { s with deferred := s.deferred.insert name e }

def setCommon (s : Step) (a : Attribute) (ctx : ResolutionContext) : Step × Diagnostics :=
  let r := a.resolve ctx
  let s := s.depending r.dependencies
  let s := if a.name == "for_each" then { s with forEach := some a.expression } else s
  match r.outcome with
  | .resolved v => s.storeCommon a.name v a.location
  | .deferred =>
    (if a.name == "depends_on" || a.name == "for_each" then s else s.defer a.name a.expression, [])
  | .failed ds => (s, ds)

/-- Stores the value of an attribute of the step's kind, or keeps its expression. -/
def setOfKind (s : Step) (name : String) (a : Attribute) (ctx : ResolutionContext) :
    Step × Diagnostics :=
  let r := a.resolve ctx
  let s := s.depending r.dependencies
  match r.outcome with
  | .resolved v =>
    match s.spec.set name v with
    | .ok spec => ({ s with spec }, [])
    | .error m => (s, [m.toDiagnostic a.location])
  | .deferred => (s.defer name a.expression, [])
  | .failed ds => (s, ds)

def setAttribute (ctx : ResolutionContext) (s : Step) (a : Attribute) : Step × Diagnostics :=
  if commonNames.contains a.name then s.setCommon a ctx
  else if s.kind.accepts a.name then s.setOfKind a.name a ctx
  else (s, [Block.unsupportedAttribute a (Keyword.spell s.kind ++ " step")])

def setAttributes (s : Step) (b : Block) (ctx : ResolutionContext) : Step × Diagnostics :=
  Diagnostics.gather (setAttribute ctx) s b.attributes

def setInner (ctx : ResolutionContext) (b : Block) (s : Step) (a : Attribute) :
    Step × Diagnostics :=
  let name := ".".intercalate (b.type :: b.labels) ++ "." ++ a.name
  if s.kind.accepts name then s.setOfKind name a ctx
  else (s, [Block.unsupportedAttribute a b.type])

def setKindBlock (s : Step) (b : Block) (ctx : ResolutionContext) : Step × Diagnostics :=
  let s := { s with spec := s.spec.openBlock b.type b.labels }
  let (s, ds) := Diagnostics.gather (setInner ctx b) s b.attributes
  (s, ds ++ b.blocks.map (·.unsupportedBlock b.type))

def setLoop (s : Step) (b : Block) (ctx : ResolutionContext) : Step × Diagnostics :=
  match Loop.ofBlock b s.kind ctx with
  | .ok (loop, dependencies) => ({ s.depending dependencies with loop := some loop }, [])
  | .error ds => (s, ds)

/-- Stores a resolved policy, or keeps its body. -/
def setPolicy (s : Step) (b : Block) (r : Resolution α) (put : α → Step → Step) :
    Step × Diagnostics :=
  let s := s.depending r.dependencies
  match r.outcome with
  | .resolved policy => (put policy s, [])
  | .deferred => ({ s with deferredBodies := s.deferredBodies.insert b.type b }, [])
  | .failed ds => (s, ds)

def addThrow (s : Step) (b : Block) (ctx : ResolutionContext) : Step × Diagnostics :=
  match Throw.ofBlock b ctx with
  | .ok (t, dependencies) => ({ s.depending dependencies with throws := s.throws ++ [t] }, [])
  | .error ds => (s, ds)

def addOutput (s : Step) (b : Block) (ctx : ResolutionContext) : Step × Diagnostics :=
  match NamedOutput.ofBlock b ctx with
  | .ok o =>
    if s.outputs.contains o.name then
      (s, [(Diagnostic.error "Duplicate output" ("An output named \"" ++ o.name
        ++ "\" was already declared in this step.")).about b.location])
    else ({ s.depending o.dependencies with outputs := s.outputs.insert o.name o }, [])
  | .error ds => (s, ds)

def setBlock (s : Step) (b : Block) (ctx : ResolutionContext) : Step × Diagnostics :=
  match b.type with
  | "loop" => s.setLoop b ctx
  | "retry" => s.setPolicy b (RetryPolicy.ofBlock b ctx) fun p s => { s with retry := some p }
  | "error" => s.setPolicy b (FailurePolicy.ofBlock b ctx) fun p s => { s with failure := some p }
  | "throw" => s.addThrow b ctx
  | "output" => s.addOutput b ctx
  | type =>
    if s.kind.acceptsBlock type then s.setKindBlock b ctx
    else (s, [b.unsupportedBlock "step"])

/-- Blocks of which a step has at most one. -/
def singleBlocks : List String := ["loop", "retry", "error"]

def setBlockOnce (ctx : ResolutionContext) (state : Step × List String) (b : Block) :
    (Step × List String) × Diagnostics :=
  let (s, seen) := state
  if seen.contains b.type then
    (state, [(Diagnostic.error "Duplicate block"
      ("Only one " ++ b.type ++ " block is allowed in a step.")).about b.location])
  else
    let (s, ds) := s.setBlock b ctx
    ((s, if singleBlocks.contains b.type then b.type :: seen else seen), ds)

def setBlocks (s : Step) (b : Block) (ctx : ResolutionContext) : Step × Diagnostics :=
  let ((s, _), ds) := Diagnostics.gather (setBlockOnce ctx) (s, []) b.blocks
  (s, ds)

/-- The rules that the values known so far break. -/
def check (s : Step) : Diagnostics :=
  s.spec.check s.location
    ++ match s.retry with
      | some policy => policy.check (s.location.child "retry")
      | none => []

/-- Decodes a block `step "<kind>" "<name>"`. -/
def ofBlock (b : Block) (pipeline : String) (ctx : ResolutionContext) : Except Diagnostics Step :=
  match b.labels with
  | [kind, name] =>
    match Keyword.parse StepKind kind with
    | .error e => .error [(Diagnostic.error "Invalid step type" e.message).about b.location]
    | .ok kind =>
      let s := { ofKind kind name pipeline with location := b.location }
      let (s, ds) := s.setAttributes b ctx
      let (s, more) := s.setBlocks b ctx
      let s' := { s with dependencies := s.dependencies.removeStep s.fullName }
      Diagnostics.orValue (ds ++ more ++ s.check) s'
  | _ => .error [(Diagnostic.error "Invalid step block"
      "A step block needs two labels: the step type and the step name.").about b.location]

end Step
end PipelineResolution
