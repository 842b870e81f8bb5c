import PipelineResolution.Block
import PipelineResolution.Document.Yaml.Basic
import PipelineResolution.Expression.Parse

/-!
# Blocks of a document

A document is a mapping of block types, and a labeled block is nested one mapping deep for each of
its labels. The type of a block says which of its keys open inner blocks; every other key is an
attribute. Each entry contributes its items in order, so nothing that is written is lost.
-/
namespace PipelineResolution

/-- How the inner blocks under a key are laid out. -/
inductive Shape where
  /-- A mapping for each label, then the body. -/
  | labeled (labels : Nat)
  /-- A sequence of bodies, or one body. -/
  | repeated
  deriving DecidableEq

/-- The inner blocks that a key opens in a block of a type; the root of the document has none. -/
def Shape.of? (type key : String) : Option Shape :=
  match type, key with
  | "", "pipeline" => some (.labeled 1)
  | "", "trigger" => some (.labeled 2)
  | "pipeline", "param" | "pipeline", "output" => some (.labeled 1)
  | "pipeline", "step" => some (.labeled 2)
  | "step", "output" | "step", "option" => some (.labeled 1)
  | "step", "loop" | "step", "retry" | "step", "error" | "step", "basic_auth"
  | "step", "notify" => some (.labeled 0)
  | "step", "throw" => some .repeated
  | "trigger", "capture" => some (.labeled 1)
  | _, _ => none

def Yaml.keyText? : Yaml → Option String
  | .string s => some s
  | .int n => some (toString n)
  | .float x => some (x.render .compact ".nan" ".inf")
  | .bool b => some (if b then "true" else "false")
  | _ => none

def Expression.literals? (es : List Expression) : Option (List Value) :=
  es.mapM fun
    | .literal v => some v
    | _ => none

/-- A sequence of expressions: a literal when all items are. -/
def Expression.ofItems (items : List Expression) : Expression :=
  match literals? items with
  | some values => .literal (.list values)
  | none => .tuple items

/-- A mapping of expressions: a literal when all values are. -/
def Expression.ofEntries (entries : List (String × Expression)) : Expression :=
  match literals? (entries.map (·.2)) with
  | some values => .literal (.ofEntries ((entries.map (·.1)).zip values))
  | none => .object entries

def invalidKey (location : Location) : Diagnostic :=
  (Diagnostic.error "Invalid key" "Object keys must be strings.").about location

mutual
/-- The expression of a value that stands at a location. -/
def Expression.ofYaml (location : Location) : Yaml → Except Diagnostic Expression
  | .null => .ok (.literal .null)
  | .bool b => .ok (.literal (.bool b))
  | .int n => .ok (.literal (.ofInt n))
  | .float x => .ok (.literal (.number x))
  | .string s =>
    if Text.contains s "$\x7b" then
      match Expression.parseTemplate s with
      | .ok e => .ok e
      | .error e => .error ((Diagnostic.error "Invalid expression" e.message).about location)
    else .ok (.literal (.string s))
  | .sequence items => do return .ofItems (← Expression.listOfYaml location 0 items)
  | .mapping entries => do return .ofEntries (← Expression.entriesOfYaml location entries)
  | .tagged _ value => Expression.ofYaml location value

def Expression.listOfYaml (location : Location) (position : Nat) :
    List Yaml → Except Diagnostic (List Expression)
  | [] => .ok []
  | y :: ys => do
    let e ← Expression.ofYaml (location.child (toString position)) y
    return e :: (← Expression.listOfYaml location (position + 1) ys)

def Expression.entriesOfYaml (location : Location) :
    List (Yaml × Yaml) → Except Diagnostic (List (String × Expression))
  | [] => .ok []
  | (k, v) :: entries =>
    match k.keyText? with
    | none => .error (invalidKey location)
    | some key => do
      let e ← Expression.ofYaml (location.child key) v
      return (key, e) :: (← Expression.entriesOfYaml location entries)
end

/-- What an entry of a body contributes to its block. -/
inductive BodyItem where
  | attribute (a : Attribute)
  | block (b : Block)
  | problem (d : Diagnostic)

namespace Block

def ofItems (type : String) (labels : List String) (location : Location) (items : List BodyItem) :
    Block where
  type := type
  labels := labels
  attributes := items.filterMap fun
    | .attribute a => some a
    | _ => none
  blocks := items.filterMap fun
    | .block b => some b
    | _ => none
  location := location
  diagnostics := items.filterMap fun
    | .problem d => some d
    | _ => none

def attributeItem (name : String) (location : Location) (y : Yaml) : BodyItem :=
  match Expression.ofYaml location y with
  | .ok e => .attribute ⟨name, e, location⟩
  | .error d => .problem d

def withoutBody (type : String) (labels : List String) (location : Location) : Block :=
  ofItems type labels location
    [.problem ((Diagnostic.error "Invalid block body"
      ("The body of a " ++ type ++ " block must be a mapping.")).about location)]

def missingLabel (type : String) (labels : Nat) (location : Location) : BodyItem :=
  .problem ((Diagnostic.error "Missing block label"
    ("A " ++ type ++ " block needs " ++ toString labels ++ " more label(s).")).about location)

def problemAt (summary detail : String) (location : Location) : BodyItem :=
  .problem ((Diagnostic.error summary detail).about location)

mutual
def itemsOfBody (type : String) (location : Location) : List (Yaml × Yaml) → List BodyItem
  | [] => []
  | (k, v) :: entries =>
    (match k.keyText? with
      | none => [problemAt "Invalid key" "Block keys must be strings." location]
      | some key => itemsOfEntry type key (location.child key) v)
      ++ itemsOfBody type location entries

def itemsOfEntry (type key : String) (location : Location) : Yaml → List BodyItem
  | .mapping entries =>
    match Shape.of? type key with
    | some (.labeled 0) => [.block (ofItems key [] location (itemsOfBody key location entries))]
    | some (.labeled (n + 1)) => itemsOfLabels key n [] location entries
    | some .repeated =>
      let location := location.child "0"
      [.block (ofItems key [] location (itemsOfBody key location entries))]
    | none => [attributeItem key location (.mapping entries)]
  | .sequence items =>
    match Shape.of? type key with
    | some .repeated => itemsOfSequence key location 0 items
    | _ => [attributeItem key location (.sequence items)]
  | y => [attributeItem key location y]

def itemsOfSequence (type : String) (location : Location) (position : Nat) :
    List Yaml → List BodyItem
  | [] => []
  | y :: ys =>
    .block (ofYaml type (location.child (toString position)) y)
      :: itemsOfSequence type location (position + 1) ys

/-- The block without labels whose body is given. -/
def ofYaml (type : String) (location : Location) : Yaml → Block
  | .null | .tagged _ .null => ofItems type [] location []
  | .mapping entries => ofItems type [] location (itemsOfBody type location entries)
  | _ => withoutBody type [] location

/-- The blocks under a mapping from labels, when `more` labels are missing after these. -/
def itemsOfLabels (type : String) (more : Nat) (labels : List String) (location : Location) :
    List (Yaml × Yaml) → List BodyItem
  | [] => []
  | (k, v) :: entries =>
    (match k.keyText? with
      | none => [problemAt "Invalid block label" "Block labels must be strings." location]
      | some label => itemsOfLabeled type more (labels ++ [label]) (location.child label) v)
      ++ itemsOfLabels type more labels location entries

/-- The blocks under some labels, when `more` labels are missing. -/
def itemsOfLabeled (type : String) (more : Nat) (labels : List String) (location : Location) :
    Yaml → List BodyItem
  | .mapping entries =>
    match more with
    | 0 => [.block (ofItems type labels location (itemsOfBody type location entries))]
    | n + 1 => itemsOfLabels type n labels location entries
  | .null | .tagged _ .null =>
    match more with
    | 0 => [.block (ofItems type labels location [])]
    | n + 1 => [missingLabel type (n + 1) location]
  | _ =>
    match more with
    | 0 => [.block (withoutBody type labels location)]
    | n + 1 => [missingLabel type (n + 1) location]
end

end Block

/-- A decoded document: its blocks and what was wrong at its root. -/
structure Document where
  blocks : List Block
  diagnostics : Diagnostics

inductive DecodeError where
  | malformed
  | notAMapping
  deriving DecidableEq

def DecodeError.message : DecodeError → String
  | .malformed => "YAML parse error"
  | .notAMapping => "document root must be a mapping of block types"

namespace Document

def unexpectedAttribute (a : Attribute) : Diagnostic :=
  (Diagnostic.error "Unsupported block type"
    ("Blocks of type \"" ++ a.name ++ "\" are not expected here.")).about a.location

/-- The document of a YAML value; at its root every key has to open a block. -/
def ofYaml (file : Option String) : Yaml → Except DecodeError Document
  | .null => .ok ⟨[], []⟩
  | .mapping entries =>
    let location : Location := ⟨file, ""⟩
    let root := Block.ofItems "" [] location (Block.itemsOfBody "" location entries)
    .ok ⟨root.blocks, root.diagnostics ++ root.attributes.map unexpectedAttribute⟩
  | _ => .error .notAMapping

def decode (text : String) (file : Option String) : Except DecodeError Document :=
  match Yaml.read? text with
  | some y => ofYaml file y
  | none => .error .malformed

end Document
end PipelineResolution
