import PipelineResolution.Graph
import PipelineResolution.Step.Basic

/-!
# Execution plans

The steps of a pipeline run in waves: all dependencies of a step lie in earlier waves. A plan fails
at a dependency that is not declared, and else at a cycle.
-/
namespace PipelineResolution

inductive PlanError where
  | unknownDependency (step target : String)
  | cycle (step : String)
  deriving DecidableEq

namespace PlanError

/-- What is wrong, without the name of the error. -/
def detail : PlanError → String
  | .unknownDependency step target =>
    "step '" ++ step ++ "' depends on unknown step '" ++ target ++ "'"
  | .cycle step => "cycle detected involving step '" ++ step ++ "'"

def message : PlanError → String
  | .unknownDependency step target =>
    "unknown dependency: " ++ detail (.unknownDependency step target)
  | .cycle step => "cycle detected: " ++ detail (.cycle step)

end PlanError

namespace Plan

/-- The position of the last step of a name. -/
def position? (steps : List Step) (name : String) : Option Nat :=
  ((steps.zipIdx.filter fun (s, _) => s.fullName == name).map Prod.snd).getLast?

/-- The edges that lead to a step. -/
def edgesTo (steps : List Step) (entry : Step × Nat) : Except PlanError (List (Nat × Nat)) :=
  entry.1.dependencies.steps.mapM fun target =>
    match position? steps target with
    | some i => .ok (i, entry.2)
    | none => .error (.unknownDependency entry.1.fullName target)

def graph (steps : List Step) : Except PlanError Graph := do
  let edges ← steps.zipIdx.mapM (edgesTo steps)
  return ⟨steps.length, edges.flatten⟩

def nameAt (steps : List Step) (i : Nat) : String := (steps[i]?.map Step.fullName).getD ""

/-- Puts each step into the wave of its depth. -/
def intoWaves (steps : List Step) (depths : List Nat) : List (List Step) :=
  (steps.zip depths).foldl (fun waves (s, depth) => waves.modify depth (· ++ [s]))
    (List.replicate (depths.max?.getD 0 + 1) [])

/-- The steps in waves, each in the order of declaration. -/
def waves (steps : List Step) : Except PlanError (List (List Step)) := do
  if steps.isEmpty then return []
  let g ← graph steps
  match g.order with
  | .ok order => return intoWaves steps (g.depths order)
  | .error i => .error (.cycle (nameAt steps i))

end Plan
end PipelineResolution
