import PipelineResolution.Config
import PipelineResolution.Dependency
import PipelineResolution.Diagnostic.Basic
import PipelineResolution.Expression.Eval

/-!
# Resolutions

When a document is read, an expression is resolved to a value, deferred to run time, or fails. A
deferred expression brings the dependencies that it waits for.
-/
namespace PipelineResolution

inductive Outcome (α : Type) where
  | resolved (value : α)
  /-- The expression has to wait for names that only a run binds. -/
  | deferred
  | failed (diagnostics : Diagnostics)

structure Resolution (α : Type) where
  outcome : Outcome α
  dependencies : DependencySet

namespace Resolution
variable {α β : Type}

def resolved (value : α) : Resolution α := ⟨.resolved value, .empty⟩

def deferred (dependencies : DependencySet) : Resolution α := ⟨.deferred, dependencies⟩

def failed (diagnostics : Diagnostics) : Resolution α := ⟨.failed diagnostics, .empty⟩

/-- Reads a resolved value further; a failure brings no dependencies. -/
def refine (r : Resolution α) (f : α → Except Diagnostics β) : Resolution β :=
  match r.outcome with
  | .resolved a =>
    match f a with
    | .ok b => ⟨.resolved b, r.dependencies⟩
    | .error ds => .failed ds
  | .deferred => .deferred r.dependencies
  | .failed ds => .failed ds

end Resolution

inductive BlockContext where
  /-- A plain attribute of a resource. -/
  | plain
  | loop | retry | throw | error
  /-- An attribute of a trigger, where `self` is what the trigger was fired with. -/
  | trigger
  deriving DecidableEq

namespace BlockContext

/-- The body of a block that is evaluated around the run of a step. -/
def isBlock : BlockContext → Bool
  | .plain | .trigger => false
  | _ => true

/-- Whether `result` is bound when the expression is evaluated. -/
def allowsResult : BlockContext → Bool
  | .loop | .retry | .throw => true
  | _ => false

def spell : BlockContext → String
  | .plain => "attribute" | .loop => "loop" | .retry => "retry" | .throw => "throw"
  | .error => "error" | .trigger => "trigger"

end BlockContext

structure ResolutionContext where
  environment : Environment
  config : ResolverConfig
  block : BlockContext := .plain
  /-- How the reports on what cannot be evaluated are worded. -/
  wording : Wording := .brief

def ResolutionContext.within (ctx : ResolutionContext) (block : BlockContext) :
    ResolutionContext :=
  { ctx with block }

end PipelineResolution
