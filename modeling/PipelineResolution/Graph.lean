/-!
# Dependency graphs

An edge `(a, b)` says that `b` waits for `a`. A depth-first search along the edges puts the nodes into
an order in which none waits for a later one, or finds a node on a cycle. One pass over that order then
gives each node its depth, one more than that of the deepest node it waits for.
-/
namespace PipelineResolution

/-- A graph on the nodes `0, .. , size - 1`, with its edges in the order of their declaration. -/
structure Graph where
  size : Nat
  edges : List (Nat × Nat)

namespace Graph
variable (g : Graph)

def dependencies (i : Nat) : List Nat := (g.edges.filter (·.2 == i)).map Prod.fst

def dependents (i : Nat) : List Nat := (g.edges.filter (·.1 == i)).map Prod.snd

/-- How far a depth-first search has come; the latest node is first. -/
structure Search where
  discovered : List Nat
  finished : List Nat

/-- Searches from a node along its dependents. The fuel bounds the length of a path. -/
def visit : Nat → Search → Nat → Search
  | 0, s, _ => s
  | fuel + 1, s, i =>
    if s.discovered.contains i then s
    else
      let s := (g.dependents i).foldl (visit fuel) { s with discovered := i :: s.discovered }
      { s with finished := i :: s.finished }

/-- The search over all nodes; no path is longer than the number of nodes. -/
def search : Search := (List.range g.size).foldl (g.visit (g.size + 1)) ⟨[], []⟩

/-- A dependency that comes after its dependent in an order of the nodes. -/
def lateDependency? (seen : List Nat) : List Nat → Option Nat
  | [] => none
  | i :: rest =>
    let seen := i :: seen
    (g.dependencies i).find? (!seen.contains ·) <|> lateDependency? seen rest

/-- A node on a cycle. A node that waits for itself goes first, in the order of discovery; otherwise
it is the first late dependency when the nodes finished last come first. -/
def cycleMember? : Option Nat :=
  let s := g.search
  s.discovered.reverse.find? (fun i => (g.dependencies i).contains i)
    <|> g.lateDependency? [] s.finished

/-- The nodes, last finished first, or a node that keeps them from being put in order. -/
def order : Except Nat (List Nat) :=
  match g.cycleMember? with
  | some i => .error i
  | none => .ok g.search.finished

/-- The depth of a node, by the depths found so far. -/
def depth (depths : List Nat) (i : Nat) : Nat :=
  ((g.dependencies i).map fun j => depths.getD j 0 + 1).max?.getD 0

/-- The depths of the nodes, found in the given order. -/
def depths (order : List Nat) : List Nat :=
  order.foldl (fun depths i => depths.set i (g.depth depths i)) (List.replicate g.size 0)

end Graph
end PipelineResolution
