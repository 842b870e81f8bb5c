import PipelineResolution.Dict
import PipelineResolution.Document.Yaml.Node

/-!
# Anchors of YAML documents

An anchor gets the number of different names before it, and an alias the number that its name has by
then. Of two nodes with one number the later is meant by every alias, so a name that comes twice may
take the number of another.
-/
namespace PipelineResolution.Yaml.Node

private def register (names : Dict Nat) (p : Properties String) : Properties Nat × Dict Nat :=
  match p.anchor with
  | some name => (⟨some names.length, p.tag⟩, Dict.insert names name names.length)
  | none => (⟨none, p.tag⟩, names)

mutual
/-- A node with numbers for names, given the names before it. An alias has to name one of them. -/
def number (names : Dict Nat) : Named → Option (Node Nat × Dict Nat)
  | .alias name => (Dict.get? names name).map fun n => (.alias n, names)
  | .scalar p text plain =>
    let (p, names) := register names p
    some (.scalar p text plain, names)
  | .sequence p items => do
    let (p, names) := register names p
    let (items, names) ← numberItems names items
    return (.sequence p items, names)
  | .mapping p entries => do
    let (p, names) := register names p
    let (entries, names) ← numberEntries names entries
    return (.mapping p entries, names)

def numberItems (names : Dict Nat) : List Named → Option (List (Node Nat) × Dict Nat)
  | [] => some ([], names)
  | node :: nodes => do
    let (node, names) ← number names node
    let (nodes, names) ← numberItems names nodes
    return (node :: nodes, names)

def numberEntries (names : Dict Nat) :
    List (Named × Named) → Option (List (Node Nat × Node Nat) × Dict Nat)
  | [] => some ([], names)
  | (key, value) :: entries => do
    let (key, names) ← number names key
    let (value, names) ← number names value
    let (entries, names) ← numberEntries names entries
    return ((key, value) :: entries, names)
end

private def anchoredAt (p : Properties Nat) (node : Node Nat) : List (Nat × Node Nat) :=
  (p.anchor.map (·, node)).toList

mutual
/-- The nodes with an anchor, each before what is inside it. -/
def anchored : Node Nat → List (Nat × Node Nat)
  | .alias _ => []
  | .scalar p text plain => anchoredAt p (.scalar p text plain)
  | .sequence p items => anchoredAt p (.sequence p items) ++ itemsAnchored items
  | .mapping p entries => anchoredAt p (.mapping p entries) ++ entriesAnchored entries

def itemsAnchored : List (Node Nat) → List (Nat × Node Nat)
  | [] => []
  | node :: nodes => anchored node ++ itemsAnchored nodes

def entriesAnchored : List (Node Nat × Node Nat) → List (Nat × Node Nat)
  | [] => []
  | (key, value) :: entries => anchored key ++ anchored value ++ entriesAnchored entries
end

mutual
/-- How often a node starts or ends: a collection does both, all else counts once. -/
def events {ν : Type} : Node ν → Nat
  | .alias _ => 1
  | .scalar .. => 1
  | .sequence _ items => itemsEvents items + 2
  | .mapping _ entries => entriesEvents entries + 2

def itemsEvents {ν : Type} : List (Node ν) → Nat
  | [] => 0
  | node :: nodes => node.events + itemsEvents nodes

def entriesEvents {ν : Type} : List (Node ν × Node ν) → Nat
  | [] => 0
  | (key, value) :: entries => key.events + value.events + entriesEvents entries
end

end PipelineResolution.Yaml.Node
