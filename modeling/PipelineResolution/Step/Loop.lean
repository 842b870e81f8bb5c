import PipelineResolution.Resolution.Attribute
import PipelineResolution.Step.Spec

/-!
# Loops

A `loop` block runs a step again until a predicate over its result holds, each time with some of its
attributes replaced. A body that is known before the first run would never change its mind, so it is
refused.
-/
namespace PipelineResolution

structure Loop where
  stopWhen : Expression
  /-- What replaces the attributes of the step in the next run. -/
  overrides : Dict Expression
  location : Location

namespace Loop

structure Draft where
  condition : Option Expression
  overrides : Dict Expression
  diagnostics : Diagnostics

/-- Takes in an attribute: the predicate, an attribute of the kind, or one that is not expected. -/
def Draft.add (kind : StepKind) (d : Draft) (a : Attribute) : Draft :=
  if a.name == "until" then { d with condition := some a.expression }
  else if kind.accepts a.name then { d with overrides := d.overrides.insert a.name a.expression }
  else { d with diagnostics := d.diagnostics ++ [Block.unsupportedAttribute a "loop"] }

def ofBlock (b : Block) (kind : StepKind) (ctx : ResolutionContext) :
    Except Diagnostics (Loop × DependencySet) :=
  let d := b.attributes.foldl (Draft.add kind) ⟨none, [], []⟩
  match d.condition with
  | none => .error (d.diagnostics ++ [b.missingArgument "until"])
  | some condition =>
    if !d.diagnostics.isEmpty then .error d.diagnostics
    else
      let r := b.resolveBody (ctx.within .loop)
      match r.outcome with
      | .resolved _ => .error [(Diagnostic.validation "Invalid loop block"
          "The loop block does not reference anything evaluated at run time, which may lead to infinite loop.").about
          b.location]
      | .deferred => .ok (⟨condition, d.overrides, b.location⟩, r.dependencies)
      | .failed ds => .error ds

/-- What a loop says after a run: whether to stop, and what to replace. -/
structure Verdict where
  stop : Bool
  overrides : Dict Value

private def condition (l : Loop) (env : Environment) : Except Diagnostics Bool :=
  match l.stopWhen.evaluate env with
  | .ok (.bool b) => .ok b
  | .ok other => .error [(Diagnostic.error "Invalid loop condition"
      ("The until expression must produce a bool, got " ++ other.typeName ++ ".")).about
      (l.location.child "until")]
  | .error ds => .error (ds.orAbout (l.location.child "until"))

private def override (l : Loop) (env : Environment) :
    Dict Expression → Dict Value × Diagnostics
  | [] => ([], [])
  | (name, e) :: rest =>
    let (values, ds) := override l env rest
    match e.evaluate env with
    | .ok v => ((name, v) :: values, ds)
    | .error found => (values, found.orAbout (l.location.child name) ++ ds)

def evaluate (l : Loop) (env : Environment) : Except Diagnostics Verdict :=
  let (overrides, ds) := override l env l.overrides
  match l.condition env with
  | .ok stop => if ds.isEmpty then .ok ⟨stop, overrides⟩ else .error ds
  | .error found => .error (found ++ ds)

end Loop
end PipelineResolution
