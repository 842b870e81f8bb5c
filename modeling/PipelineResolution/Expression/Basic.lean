import PipelineResolution.Expression.Datum

/-!
# Expressions and their references

The value of an attribute is a constant, a template, a term, or a list or mapping of expressions.
`Expression.references` lists what an expression refers to, in the order of its text; its roots are
the names that an environment has to bind.
-/
namespace PipelineResolution

inductive Expression where
  | literal (value : Value)
  /-- A text with interpolations, which evaluates to a string. -/
  | template (parts : List Part)
  | term (term : Term)
  | tuple (items : List Expression)
  | object (entries : List (String × Expression))

instance : Inhabited Expression := ⟨.literal .null⟩

/-- Why a text is no expression. -/
inductive ExpressionError where
  | malformed
  /-- A directive outside quotes. -/
  | directive
  deriving DecidableEq

def ExpressionError.message : ExpressionError → String
  | .malformed => "HCL parse error"
  | .directive => "template directives are not supported"

/-- A root name with the attributes and constant indexes that follow it. -/
structure Reference where
  root : String
  path : List String
  deriving DecidableEq

namespace Reference

/-- The segment at a position; the root is segment 0. -/
def segment? (r : Reference) (n : Nat) : Option String := (r.root :: r.path)[n]?

def segmentCount (r : Reference) : Nat := r.path.length + 1

def display (r : Reference) : String := ".".intercalate (r.root :: r.path)

end Reference

/-- A constant index as a segment. -/
def Term.segment? : Term → Option String
  | .string s => some s
  | .number n => some n.display
  | _ => none

mutual
def Term.references : Term → List Reference
  | .null | .bool _ | .number _ | .string _ | .malformed _ => []
  | .variable name => [⟨name, []⟩]
  | .array items => Term.listReferences items
  | .object entries => Term.entryReferences entries
  | .template _ parts => Part.listReferences parts
  | .call _ arguments _ => Term.listReferences arguments
  | .paren inner => inner.references
  | .conditional test yes no => test.references ++ yes.references ++ no.references
  | .unary _ operand => operand.references
  | .binary _ left right => left.references ++ right.references
  | .access base accessors =>
    match base with
    | .variable name => Accessor.follow (some ⟨name, []⟩) accessors
    | base => base.references ++ Accessor.follow none accessors
  | .listFor names source body tests =>
    source.references
      ++ (body.references ++ Term.listReferences tests).filter (!names.binds ·.root)
  | .objectFor names source key body _ tests =>
    source.references ++ (key.references ++ body.references ++ Term.listReferences tests).filter
      (!names.binds ·.root)

def Term.listReferences : List Term → List Reference
  | [] => []
  | t :: ts => t.references ++ Term.listReferences ts

def Term.entryReferences : List (Key × Term) → List Reference
  | [] => []
  | (k, t) :: es => k.references ++ t.references ++ Term.entryReferences es

def Key.references : Key → List Reference
  | .name _ => []
  | .computed t => t.references

/-- Only interpolations count: a directive reports its unknown names when it is evaluated. -/
def Part.references : Part → List Reference
  | .text _ => []
  | .interpolation _ t => t.references
  | .branch .. => []
  | .loop .. => []

def Part.listReferences : List Part → List Reference
  | [] => []
  | p :: ps => p.references ++ Part.listReferences ps

/-- Extends the reference that the accessors start from. A computed index and the elements of a
list end it. -/
def Accessor.follow (current : Option Reference) : List Accessor → List Reference
  | [] => current.toList
  | .member name :: rest =>
    Accessor.follow (current.map fun r => { r with path := r.path ++ [name] }) rest
  | .position n :: rest =>
    Accessor.follow (current.map fun r => { r with path := r.path ++ [toString n] }) rest
  | .index key :: rest =>
    match current, key.segment? with
    | some r, some segment => Accessor.follow (some { r with path := r.path ++ [segment] }) rest
    | _, _ => current.toList ++ key.references ++ Accessor.follow none rest
  | .eachMember _ :: rest => current.toList ++ Accessor.follow none rest
  | .each :: rest => current.toList ++ Accessor.follow none rest
end

namespace Expression

def isLiteral : Expression → Bool
  | .literal _ => true
  | _ => false

mutual
def references : Expression → List Reference
  | .literal _ => []
  | .template parts => Part.listReferences parts
  | .term t => t.references
  | .tuple items => listReferences items
  | .object entries => entryReferences entries

def listReferences : List Expression → List Reference
  | [] => []
  | e :: es => e.references ++ listReferences es

def entryReferences : List (String × Expression) → List Reference
  | [] => []
  | (_, e) :: es => e.references ++ entryReferences es
end

/-- The members of a list at their first occurrence. -/
def firstOccurrences (names : List String) : List String :=
  names.foldl (fun seen name => if seen.contains name then seen else seen ++ [name]) []

def roots (e : Expression) : List String := firstOccurrences (e.references.map Reference.root)

mutual
def equals : Expression → Expression → Bool
  | .literal a, .literal b => a == b
  | .template a, .template b => Part.listEquals a b
  | .term a, .term b => a == b
  | .tuple as, .tuple bs => listEquals as bs
  | .object as, .object bs => entriesEqual as bs
  | _, _ => false

def listEquals : List Expression → List Expression → Bool
  | [], [] => true
  | a :: as, b :: bs => a.equals b && listEquals as bs
  | _, _ => false

def entriesEqual : List (String × Expression) → List (String × Expression) → Bool
  | [], [] => true
  | (k, a) :: as, (l, b) :: bs => k == l && a.equals b && entriesEqual as bs
  | _, _ => false
end

instance : BEq Expression := ⟨equals⟩

end Expression
end PipelineResolution
