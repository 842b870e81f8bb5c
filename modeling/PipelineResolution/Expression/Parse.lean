import PipelineResolution.Expression.Basic
import PipelineResolution.Expression.Grammar

/-!
# Reading expressions

A text is read as a template, or as one term. What is constant becomes a literal, and a template
that is a single interpolation becomes the term inside, whose value keeps its type.
-/
namespace PipelineResolution

def Key.constant? : Key → Option String
  | .name s => some s
  | .computed (.string s) => some s
  | _ => none

mutual
/-- The value of a term that is written out. -/
def Term.constant? : Term → Option Value
  | .null => some .null
  | .bool b => some (.bool b)
  | .number n => some (.number n.toNumber)
  | .string s => some (.string s)
  | .paren inner => inner.constant?
  | .array items => (Term.constants? items).map .list
  | .object entries => (Term.constantEntries? entries).map .ofEntries
  | _ => none

def Term.constants? : List Term → Option (List Value)
  | [] => some []
  | t :: ts => do
    let v ← t.constant?
    return v :: (← Term.constants? ts)

def Term.constantEntries? : List (Key × Term) → Option (List (String × Value))
  | [] => some []
  | (k, t) :: es => do
    let key ← k.constant?
    let v ← t.constant?
    return (key, v) :: (← Term.constantEntries? es)
end

namespace Expression

/-- A term as an expression: a literal when it is constant. -/
def ofTerm (t : Term) : Expression :=
  match t.constant? with
  | some v => .literal v
  | none => .term t

/-- The text of a template without interpolations. -/
def constantText? (parts : List Part) : Option String := do
  let texts ← parts.mapM fun
    | .text s => some s
    | _ => none
  return String.join texts

def isDirective : Part → Bool
  | .branch .. => true
  | .loop .. => true
  | _ => false

def ofParts (parts : List Part) : Except ExpressionError Expression :=
  if parts.any isDirective then .error .directive
  else match parts with
    | [.interpolation _ t] => .ok (ofTerm t)
    | parts =>
      match constantText? parts with
      | some text => .ok (.literal (.string text))
      | none => .ok (.template parts)

def parseTemplate (s : String) : Except ExpressionError Expression :=
  match Grammar.template? s with
  | some parts => ofParts parts
  | none => .error .malformed

/-- Reads a bare term such as `step.http.s1.output.status == 200`. -/
def parseTerm (s : String) : Except ExpressionError Expression :=
  match Grammar.term? s with
  | some t => .ok (ofTerm t)
  | none => .error .malformed

end Expression
end PipelineResolution
