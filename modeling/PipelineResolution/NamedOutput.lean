import PipelineResolution.Resolution.Attribute

/-!
# Named outputs

An `output` block of a pipeline or a step names a value. The value is known when the document is
read, or its expression is kept for run time.
-/
namespace PipelineResolution

/-- A value, or the expression that gives it at run time. -/
inductive Content where
  | known (value : Value)
  | pending (expression : Expression)
  deriving Inhabited

structure NamedOutput where
  name : String
  description : Option String
  content : Content
  dependencies : DependencySet
  location : Location

namespace NamedOutput

/-- The description, which has to be known when the document is read. -/
def describe (b : Block) (ctx : ResolutionContext) : Option String × Diagnostics :=
  match b.attribute? "description" with
  | none => (none, [])
  | some a =>
    match (a.resolve ctx).outcome with
    | .resolved (.string text) => (some text, [])
    | .resolved other => (none, [(Diagnostic.error "Incorrect attribute value type"
        ("The description must be a string, got " ++ other.typeName ++ ".")).about a.location])
    | .deferred => (none, [(Diagnostic.error "Invalid description"
        "An output description cannot reference values known only at run time.").about a.location])
    | .failed ds => (none, ds)

/-- The value, or the expression that has to wait, with its dependencies. -/
def contentOf (b : Block) (ctx : ResolutionContext) :
    Except Diagnostics (Content × DependencySet) :=
  match b.attribute? "value" with
  | none => .error [b.missingArgument "value"]
  | some a =>
    let r := a.resolve ctx
    match r.outcome with
    | .resolved v => .ok (.known v, r.dependencies)
    | .deferred => .ok (.pending a.expression, r.dependencies)
    | .failed ds => .error ds

def ofBlock (b : Block) (ctx : ResolutionContext) : Except Diagnostics NamedOutput :=
  match b.label? 0 with
  | none => .error [(Diagnostic.error "Missing name for output"
      "An output block needs a name label.").about b.location]
  | some name =>
    let (description, described) := describe b ctx
    let ds := b.unsupportedAttributes ["description", "value"] ++ described
    match contentOf b ctx with
    | .error found => .error (ds ++ found)
    | .ok (content, dependencies) =>
      Diagnostics.orValue ds ⟨name, description, content, dependencies, b.location⟩

def evaluate (o : NamedOutput) (env : Environment) : Except Diagnostics Value :=
  match o.content with
  | .known v => .ok v
  | .pending e => (e.evaluate env).mapError (Diagnostics.orAbout · (o.location.child "value"))

end NamedOutput
end PipelineResolution
