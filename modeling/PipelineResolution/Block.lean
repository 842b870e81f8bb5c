import PipelineResolution.Diagnostic.Basic
import PipelineResolution.Expression.Basic

/-!
# Blocks

A document is a tree of blocks. A block has a type, labels, attributes and inner blocks in the order
of the document; where they stand takes no part in equality.
-/
namespace PipelineResolution

structure Attribute where
  name : String
  expression : Expression
  location : Location
  deriving Inhabited

instance : BEq Attribute := ⟨fun a b => a.name == b.name && a.expression == b.expression⟩

structure Block where
  type : String
  labels : List String
  attributes : List Attribute
  blocks : List Block
  location : Location
  /-- What was wrong with the entries of the block itself when it was decoded. -/
  diagnostics : Diagnostics
  deriving Inhabited

namespace Block

/-- A block without contents, located by its type and labels. -/
def ofType (type : String) (labels : List String) : Block :=
  ⟨type, labels, [], [], .ofPath (".".intercalate (type :: labels)), []⟩

mutual
def equals : Block → Block → Bool
  | ⟨t, ls, as, bs, _, _⟩, ⟨u, ms, cs, ds, _, _⟩ =>
    t == u && ls == ms && as == cs && listEquals bs ds

def listEquals : List Block → List Block → Bool
  | [], [] => true
  | a :: as, b :: bs => a.equals b && listEquals as bs
  | _, _ => false
end

instance : BEq Block := ⟨equals⟩

mutual
/-- What was wrong with the entries of the block and of all blocks inside. -/
def allDiagnostics : Block → Diagnostics
  | ⟨_, _, _, bs, _, ds⟩ => ds ++ listDiagnostics bs

def listDiagnostics : List Block → Diagnostics
  | [] => []
  | b :: bs => b.allDiagnostics ++ listDiagnostics bs
end

def attribute? (b : Block) (name : String) : Option Attribute :=
  b.attributes.find? (·.name == name)

def blocksOfType (b : Block) (type : String) : List Block := b.blocks.filter (·.type == type)

def label? (b : Block) (n : Nat) : Option String := b.labels[n]?

def unsupportedAttribute (a : Attribute) (type : String) : Diagnostic :=
  { Diagnostic.error "Unsupported attribute"
      ("An argument named \"" ++ a.name ++ "\" is not expected in a " ++ type ++ " block.") with
    subject := some a.location
    kind := .unsupportedAttribute a.name }

/-- The reports on all attributes but the allowed ones. -/
def unsupportedAttributes (b : Block) (allowed : List String) : Diagnostics :=
  (b.attributes.filter fun a => !allowed.contains a.name).map (unsupportedAttribute · b.type)

def missingArgument (b : Block) (name : String) : Diagnostic :=
  (Diagnostic.error "Missing required argument"
    ("The argument \"" ++ name ++ "\" is required.")).about b.location

def unsupportedBlock (b : Block) (parent : String) : Diagnostic :=
  (Diagnostic.error "Unsupported block type"
    ("Blocks of type \"" ++ b.type ++ "\" are not expected in a " ++ parent ++ " block.")).about
    b.location

end Block
end PipelineResolution
