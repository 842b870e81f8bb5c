import PipelineResolution.Expression.Basic
import PipelineResolution.Resolution.Basic

/-!
# Recoverable diagnostics

An unknown root is recoverable when a run binds it: the expression waits. Waiting for `step` and
`credential` turns their references into dependency edges; a reference too short to name a target
makes the diagnostic unrecoverable.
-/
namespace PipelineResolution

inductive Verdict where
  | recoverable (edges : List Edge)
  /-- With the report on a malformed reference, if that is the reason. -/
  | unrecoverable (extra : Option Diagnostic)

def malformedReference (r : Reference) (root least sample : String) : Diagnostic :=
  { Diagnostic.error ("Invalid " ++ root ++ " reference")
      ("A reference to a " ++ root ++ " must have at least " ++ least ++ " parts, e.g. " ++ sample
        ++ "; got \"" ++ r.display ++ "\".") with
    kind := .malformedReference r.display }

/-- The edge of a reference rooted at `step`. -/
def stepEdge (r : Reference) : Except Diagnostic Edge :=
  match r.path with
  | kind :: name :: _ => .ok (.step kind name)
  | _ => .error (malformedReference r "step" "3" "step.<type>.<name>")

def credentialEdge (r : Reference) : Except Diagnostic Edge :=
  match r.path with
  | kind :: name :: _ => .ok (.credential kind name)
  | [kind] => .ok (.dynamicCredential kind)
  | [] => .error (malformedReference r "credential" "2" "credential.<type>")

def edgesOf (edge : Reference → Except Diagnostic Edge) (root : String) (e : Expression) : Verdict :=
  match (e.references.filter (·.root == root)).mapM edge with
  | .ok edges => .recoverable edges
  | .error d => .unrecoverable (some d)

def classifyRoot (root : String) (e : Expression) (block : BlockContext) : Verdict :=
  match root with
  | "step" => edgesOf stepEdge "step" e
  | "credential" => edgesOf credentialEdge "credential" e
  | "each" | "param" | "loop" => .recoverable []
  | "retry" => if block.isBlock then .recoverable [] else .unrecoverable none
  | "result" => if block.allowsResult then .recoverable [] else .unrecoverable none
  | "self" => if block = .trigger then .recoverable [] else .unrecoverable none
  | _ => .unrecoverable none

def classify (d : Diagnostic) (e : Expression) (ctx : ResolutionContext) : Verdict :=
  match d.unknownSymbol? ctx.config.matchDiagnosticText with
  | some root => classifyRoot root e ctx.block
  | none => .unrecoverable none

structure BatchVerdict where
  recoverable : Bool
  edges : List Edge
  /-- Reports to append to the batch. -/
  extra : Diagnostics

def BatchVerdict.add (b : BatchVerdict) : Verdict → BatchVerdict
  | .recoverable edges => { b with edges := b.edges ++ edges }
  | .unrecoverable extra =>
    { b with recoverable := false, extra := b.extra ++ extra.toList }

/-- The diagnostics of a batch, each unknown root once. -/
def distinctSymbols (ctx : ResolutionContext) (seen : List String) : Diagnostics → Diagnostics
  | [] => []
  | d :: ds =>
    match d.unknownSymbol? ctx.config.matchDiagnosticText with
    | some symbol =>
      if seen.contains symbol then distinctSymbols ctx seen ds
      else d :: distinctSymbols ctx (symbol :: seen) ds
    | none => d :: distinctSymbols ctx seen ds

/-- A batch is recoverable when all its diagnostics are. -/
def classifyAll (ds : Diagnostics) (e : Expression) (ctx : ResolutionContext) : BatchVerdict :=
  (distinctSymbols ctx [] ds).foldl (fun b d => b.add (classify d e ctx)) ⟨true, [], []⟩

end PipelineResolution
