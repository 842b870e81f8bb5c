import PipelineResolution.Document.Yaml.Token
import PipelineResolution.Reading

/-!
# Nodes of YAML documents

The tree of a document, with anchors and aliases as they are written. Where a node may be left out,
an empty plain scalar stands for it. Collections are nested at most `nestingLimit` deep.
-/
namespace PipelineResolution.Yaml
open Reading

/-- What may stand before a node whose anchors are of type `ν`. -/
structure Properties (ν : Type) where
  anchor : Option ν
  tag : Option String

inductive Node (ν : Type) where
  | alias (name : ν)
  | scalar (properties : Properties ν) (text : String) (plain : Bool)
  | sequence (properties : Properties ν) (items : List (Node ν))
  | mapping (properties : Properties ν) (entries : List (Node ν × Node ν))

namespace Node

abbrev Named : Type := Node String

abbrev Rule (α : Type) : Type := Reading (List Token) α

private def token (t : Token) : Rule Unit := do
  let _ ← satisfy (· == t)

private def select (f : Token → Option α) : Rule α
  | [] => none
  | t :: ts => (f t).map fun a => (a, ts)

/-- The full name of a tag. -/
def tagName? (handles : List (String × String)) (handle rest : String) : Option String :=
  if handle.isEmpty then some rest
  else (handles.find? (·.1 == handle)).map fun h => h.2 ++ rest

def defaultHandles : List (String × String) := [("!", "!"), ("!!", "tag:yaml.org,2002:")]

private def anchor : Rule String := select fun
  | .anchor name => some name
  | _ => none

private def tag (handles : List (String × String)) : Rule String := select fun
  | .tag handle rest => tagName? handles handle rest
  | _ => none

private def properties (handles : List (String × String)) : Rule (Properties String) :=
  (do
    let anchor ← anchor
    return ⟨some anchor, ← optional (tag handles)⟩)
  <|> (do
    let tag ← optional (tag handles)
    return ⟨← optional anchor, tag⟩)

private def noProperties : Properties String := ⟨none, none⟩

/-- The node that stands where none is written. -/
def empty : Named := .scalar noProperties "" true

/-- The rules for the nodes inside a node: in a block, and whether dashes at the indentation of the
mapping around belong to it. -/
abbrev Inner := (block dashes : Bool) → Rule Named

/-- A node unless one of the given tokens is next. -/
private def unlessNext (ends : List Token) (p : Rule Named) : Rule Named := fun ts =>
  match ts with
  | [] => some (empty, [])
  | t :: _ => if ends.contains t then some (empty, ts) else p ts

private def blockItems (inner : Inner) : Rule (List Named) :=
  many (do
    token .entry
    unlessNext [.entry, .blockEnd] (inner true false))

private def dashItems (inner : Inner) : Rule (List Named) :=
  many (do
    token .entry
    unlessNext [.entry, .key, .value, .blockEnd] (inner true false))

private def blockEntries (inner : Inner) : Rule (List (Named × Named)) :=
  many (do
    token .key
    let key ← unlessNext [.key, .value, .blockEnd] (inner true true)
    let value ← (do
      token .value
      unlessNext [.key, .value, .blockEnd] (inner true true)) <|> pure empty
    return (key, value))

private def flowValue (inner : Inner) (close : Token) : Rule Named :=
  (do
    token .value
    unlessNext [.comma, close] (inner false false)) <|> pure empty

/-- An item of a flow sequence. What comes after a key that is left out is passed over. -/
private def flowItem (inner : Inner) : Rule Named :=
  (do
    token .key
    let key ← (do
      token .value <|> token .comma <|> token .flowSequenceEnd
      return empty) <|> inner false false
    return .mapping noProperties [(key, ← flowValue inner .flowSequenceEnd)])
  <|> inner false false

private def flowEntry (inner : Inner) : Rule (Named × Named) :=
  (do
    token .key
    let key ← unlessNext [.value, .comma, .flowMappingEnd] (inner false false)
    return (key, ← flowValue inner .flowMappingEnd))
  <|> (do return (← inner false false, empty))

/-- Items with commas between them; one more comma may follow the last. -/
private def commaList (item : Rule α) : Rule (List α) := do
  match ← optional (sepBy1 item (token .comma)) with
  | none => return []
  | some items =>
    let _ ← optional (token .comma)
    return items

private def collection (inner : Inner) (block dashes : Bool) (p : Properties String) : Rule Named :=
  let dashed : Rule Named := do
    if !dashes then fail
    nextIs (· == some .entry)
    return .sequence p (← dashItems inner)
  let flowSequence : Rule Named := do
    token .flowSequence
    let items ← commaList (flowItem inner)
    token .flowSequenceEnd
    return .sequence p items
  let flowMapping : Rule Named := do
    token .flowMapping
    let entries ← commaList (flowEntry inner)
    token .flowMappingEnd
    return .mapping p entries
  let blockSequence : Rule Named := do
    if !block then fail
    token .blockSequence
    let items ← blockItems inner
    token .blockEnd
    return .sequence p items
  let blockMapping : Rule Named := do
    if !block then fail
    token .blockMapping
    let entries ← blockEntries inner
    token .blockEnd
    return .mapping p entries
  dashed <|> flowSequence <|> flowMapping <|> blockSequence <|> blockMapping

/-- A node with at most the given depth of collections. -/
def rule (handles : List (String × String)) : Nat → Inner
  | depth, block, dashes =>
    let aliased : Rule Named := select fun
      | .alias name => some (.alias name)
      | _ => none
    let scalar (p : Properties String) : Rule Named := select fun
      | .scalar text plain => some (.scalar p text plain)
      | _ => none
    let inside (p : Properties String) : Rule Named :=
      match depth with
      | 0 => fail
      | depth + 1 => collection (rule handles depth) block dashes p
    aliased <|> do
      let p ← properties handles
      let bare : Rule Named :=
        if p.anchor.isSome || p.tag.isSome then pure (.scalar p "" true) else fail
      scalar p <|> inside p <|> bare

def nestingLimit : Nat := 128

private def directives : Rule (List (String × String)) := do
  let versions ← many (select fun
    | .version major minor => some (some (major, minor), none)
    | .tagHandle handle full => some (none, some (handle, full))
    | _ => none)
  let numbers := versions.filterMap (·.1)
  let handles := versions.filterMap (·.2)
  let valid := numbers.length ≤ 1 && numbers.all (fun v => v == (1, 1) || v == (1, 2))
    && (handles.map (·.1)).eraseDups.length == handles.length
  if valid then return handles ++ defaultHandles else fail

/-- The tree of a text that holds one document. A text without any has an empty one. -/
def document : Rule Named := do
  let content (handles : List (String × String)) : Rule Named :=
    rule handles nestingLimit true false
  let ends : Rule Unit := nextIs fun t => t == none || t == some .documentEnd
  let marked : Rule Named := do
    let handles ← directives
    token .documentStart
    content handles <|> (do ends; return empty)
  let bare : Rule Named := content defaultHandles
  let nothing : Rule Named := do
    nextIs (· == none)
    return empty
  let root ← marked <|> bare <|> nothing
  let _ ← many (token .documentEnd)
  return root

def read? (s : String) : Option Named := tokens? s >>= document.whole?

end Node
end PipelineResolution.Yaml
