import PipelineResolution.Block
import PipelineResolution.Expression.Eval
import PipelineResolution.Resolution.Classify

/-!
# Resolution of attributes and bodies

An attribute is resolved by evaluating it; what stops the evaluation is then classified. A body is
resolved as a unit: one failed attribute fails it, and otherwise one deferred attribute defers it.
-/
namespace PipelineResolution

/-- Whether an expression refers to `param`, which is bound anew for every execution. -/
def Expression.usesParam (e : Expression) : Bool := e.references.any (·.root == "param")

/-- Resolves an expression that stands at a location. -/
def Expression.resolve (e : Expression) (location : Location) (ctx : ResolutionContext) :
    Resolution Value :=
  match e.evaluateWith ctx.environment ctx.wording with
  | .ok value => if e.usesParam then .deferred .empty else .resolved value
  | .error ds =>
    let batch := classifyAll ds e ctx
    if batch.recoverable then .deferred (.ofEdges batch.edges)
    else .failed (ds.orAbout location ++ batch.extra.orAbout location)

def Attribute.resolve (a : Attribute) (ctx : ResolutionContext) : Resolution Value :=
  a.expression.resolve a.location ctx

namespace Block

/-- What has been resolved of a body so far. -/
structure Progress where
  values : Dict Value
  dependencies : DependencySet
  diagnostics : Diagnostics
  deferred : Bool

def Progress.add (p : Progress) (name : String) (r : Resolution Value) : Progress :=
  let p := { p with dependencies := p.dependencies.merge r.dependencies }
  match r.outcome with
  | .resolved v => { p with values := p.values.insert name v }
  | .deferred => { p with deferred := true }
  | .failed ds => { p with diagnostics := p.diagnostics ++ ds }

/-- The values of a body's attributes by name; a failed body reports no dependencies. -/
def resolveBody (b : Block) (ctx : ResolutionContext) : Resolution (Dict Value) :=
  let p := b.attributes.foldl (fun p a => p.add a.name (a.resolve ctx))
    (⟨[], .empty, [], false⟩ : Progress)
  if !p.diagnostics.isEmpty then .failed p.diagnostics
  else if p.deferred then .deferred p.dependencies
  else ⟨.resolved p.values, p.dependencies⟩

/-- The values of a body's attributes at run time, when nothing can be deferred any more. -/
def evaluateBody (b : Block) (env : Environment) : Except Diagnostics (Dict Value) :=
  let (values, ds) := b.attributes.foldl (fun ((values, ds) : Dict Value × Diagnostics) a =>
    match a.expression.evaluate env with
    | .ok v => (values.insert a.name v, ds)
    | .error found => (values, ds ++ found.orAbout a.location)) ([], [])
  Diagnostics.orValue ds values

end Block
end PipelineResolution
