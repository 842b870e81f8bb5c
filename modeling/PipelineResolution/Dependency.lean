/-!
# Dependencies

An edge says what a step waits for: another step or a credential. A `DependencySet` holds the
targets of both kinds in the order in which they were first found, each once.
-/
namespace PipelineResolution

inductive EdgeKind where
  | step | credential
  deriving DecidableEq

/-- A target `<kind>.<name>` to wait for. -/
structure Edge where
  kind : EdgeKind
  target : String
  deriving DecidableEq

namespace Edge

def step (kind name : String) : Edge := ⟨.step, kind ++ "." ++ name⟩

def credential (kind name : String) : Edge := ⟨.credential, kind ++ "." ++ name⟩

/-- A credential whose name is computed at run time. -/
def dynamicCredential (kind : String) : Edge := credential kind "<dynamic>"

def display (e : Edge) : String :=
  match e.kind with
  | .step => "step." ++ e.target
  | .credential => "credential." ++ e.target

end Edge

/-- Targets in first-found order, without repetition. -/
structure DependencySet where
  steps : List String
  credentials : List String
  deriving DecidableEq

namespace DependencySet

def empty : DependencySet := ⟨[], []⟩

instance : Inhabited DependencySet := ⟨empty⟩

def targets (s : DependencySet) : EdgeKind → List String
  | .step => s.steps
  | .credential => s.credentials

def contains (s : DependencySet) (e : Edge) : Bool := (s.targets e.kind).contains e.target

/-- A list with a target at its end unless it holds the target already. -/
def push (targets : List String) (target : String) : List String :=
  if targets.contains target then targets else targets ++ [target]

def add (s : DependencySet) (e : Edge) : DependencySet :=
  match e.kind with
  | .step => { s with steps := push s.steps e.target }
  | .credential => { s with credentials := push s.credentials e.target }

/-- Adds an edge, and tells whether its target is new. -/
def insert (s : DependencySet) (e : Edge) : DependencySet × Bool :=
  if s.contains e then (s, false) else (s.add e, true)

/-- Adds what `other` holds, in its order. -/
def merge (s other : DependencySet) : DependencySet :=
  ⟨other.steps.foldl push s.steps, other.credentials.foldl push s.credentials⟩

def ofEdges (edges : List Edge) : DependencySet := edges.foldl add empty

/-- Drops a step target: a step never waits for itself. -/
def removeStep (s : DependencySet) (target : String) : DependencySet :=
  { s with steps := s.steps.filter (· != target) }

def isEmpty (s : DependencySet) : Bool := s.steps.isEmpty && s.credentials.isEmpty

end DependencySet
end PipelineResolution
