import PipelineResolution.Document.Yaml.Anchor
import PipelineResolution.Number.Decimal

/-!
# YAML documents

A plain scalar is null, a bool, a number or a string by its spelling; a quoted one is a string. An
alias stands for a copy of the node it names, and a tag of the document's own is kept around its
value. The copies are limited in depth and number, so a node may name itself without harm.
-/
namespace PipelineResolution

inductive Yaml where
  | null
  | bool (b : Bool)
  | int (n : Int)
  | float (x : Number)
  | string (s : String)
  | sequence (items : List Yaml)
  | mapping (entries : List (Yaml × Yaml))
  | tagged (tag : String) (value : Yaml)
  deriving Inhabited

namespace Yaml

mutual
/-- Whether two documents are the same key; entries of mappings have no order, and not a number is
the same as itself. -/
def same : Yaml → Yaml → Bool
  | .null, .null => true
  | .bool a, .bool b => a == b
  | .int a, .int b => a == b
  | .float a, .float b => a == b || a.equals b
  | .string a, .string b => a == b
  | .sequence as, .sequence bs => sameItems as bs
  | .mapping as, .mapping bs => as.length == bs.length && entriesIn as bs
  | .tagged s a, .tagged t b => s == t && a.same b
  | _, _ => false

def sameItems : List Yaml → List Yaml → Bool
  | [], [] => true
  | a :: as, b :: bs => a.same b && sameItems as bs
  | _, _ => false

/-- Every entry stands among the others. -/
def entriesIn : List (Yaml × Yaml) → List (Yaml × Yaml) → Bool
  | [], _ => true
  | (k, v) :: as, bs => bs.any (fun b => k.same b.1 && v.same b.2) && entriesIn as bs
end

def isNull : Yaml → Bool
  | .null => true
  | _ => false

private def digits? (base : Nat) (s : List Char) : Option Nat := do
  let values ← s.mapM fun c => (Text.hexDigit? c).filter (· < base)
  if values.isEmpty then none else return values.foldl (fun n d => n * base + d) 0

/-- Several digits of which the first is zero: no number. -/
private def hasLeadingZero (s : List Char) : Bool :=
  match s with
  | '0' :: more => !more.isEmpty && more.all Char.isDigit
  | _ => false

/-- An integer: decimal, or in base 16, 8 or 2 after `0x`, `0o` or `0b`. -/
private def int? (s : List Char) : Option Int := do
  let (negative, s) := match s with
    | '-' :: s => (true, s)
    | '+' :: s => (false, s)
    | s => (false, s)
  let n ← match s with
    | '0' :: 'x' :: s => digits? 16 s
    | '0' :: 'o' :: s => digits? 8 s
    | '0' :: 'b' :: s => digits? 2 s
    | s => if hasLeadingZero s then none else digits? 10 s
  return if negative then -(n : Int) else n

private def isWord (n : Int) : Bool := Word.isSigned n || Word.isUnsigned n

/-- An integer of the signed or the unsigned 128-bit range. -/
private def isDoubleWord (n : Int) : Bool :=
  -(Word.count 127 : Int) ≤ n && n < (Word.count 128 : Int)

private def float? (s : List Char) : Option Number :=
  let unsigned := match s with
    | '+' :: s => s
    | s => s
  if [".inf", ".Inf", ".INF"].contains (String.ofList unsigned) then some (.infinite false)
  else if ["-.inf", "-.Inf", "-.INF"].contains (String.ofList s) then some (.infinite true)
  else if [".nan", ".NaN", ".NAN"].contains (String.ofList s) then some .nan
  else
    let signed := unsigned.head? == some '+' || unsigned.head? == some '-'
    let twice := unsigned.length < s.length && signed
    if twice then none else (Number.ofText? unsigned).filter Number.isFinite

private def null? (s : String) : Bool := s == "null" || s == "Null" || s == "NULL" || s == "~"

private def bool? (s : String) : Option Bool :=
  if s == "true" || s == "True" || s == "TRUE" then some true
  else if s == "false" || s == "False" || s == "FALSE" then some false
  else none

private def afterSign : List Char → List Char
  | '-' :: s | '+' :: s => s
  | s => s

/-- What a plain scalar stands for. An integer of more than 64 and at most 128 bits is refused. -/
def ofPlain (s : String) : Option Yaml :=
  let cs := s.toList
  let float := if hasLeadingZero (afterSign cs) then none else float? cs
  if s.isEmpty || null? s then some .null
  else match bool? s, (int? cs).filter isDoubleWord, float with
    | some b, _, _ => some (.bool b)
    | none, some n, _ => if isWord n then some (.int n) else none
    | none, none, some x => some (.float x)
    | none, none, none => some (.string s)

/-- What a scalar with a tag of the standard stands for. -/
def ofStandardTag (tag text : String) : Option Yaml :=
  match tag with
  | "tag:yaml.org,2002:bool" => (bool? text).map .bool
  | "tag:yaml.org,2002:int" => ((int? text.toList).filter isWord).map .int
  | "tag:yaml.org,2002:float" => (float? text.toList).map .float
  | "tag:yaml.org,2002:null" => if null? text then some .null else none
  | _ => some (.string text)

/-- A tag of the document's own, without its exclamation mark. -/
def ownTag? (tag : Option String) : Option String := do
  match (← tag).toList with
  | '!' :: name => some (String.ofList name)
  | _ => none

/-- A lone exclamation mark leaves a scalar as it is. -/
def ofScalar (p : Properties Nat) (text : String) (plain : Bool) : Option Yaml :=
  let untagged := if plain then ofPlain text else some (.string text)
  match ownTag? p.tag, p.tag with
  | some "", _ => untagged
  | some name, _ => untagged.map (.tagged name)
  | none, some tag => ofStandardTag tag text
  | none, none => untagged

def withTag (p : Properties Nat) (y : Yaml) : Option Yaml :=
  match ownTag? p.tag with
  | some "" => none
  | some name => some (.tagged name y)
  | none => some y

/-- No two keys of a mapping are the same. -/
def distinctKeys : List (Yaml × Yaml) → Bool
  | [] => true
  | (k, _) :: entries => !entries.any (fun e => k.same e.1) && distinctKeys entries

/-- The document of a node with at most the given depth of collections, and how many aliases may
still be followed of so many. An alias stands for the last node with its number. -/
def ofNode (anchored : List (Nat × Node Nat)) (depth : Nat) : Node Nat → StateT Nat Option Yaml :=
  let written : Node Nat → StateT Nat Option Yaml := fun
    | .alias _ => failure
    | .scalar p text plain => (ofScalar p text plain).elim failure pure
    | .sequence p items =>
      match depth with
      | 0 => failure
      | depth + 1 => do
        let items ← items.mapM (ofNode anchored depth)
        (withTag p (.sequence items)).elim failure pure
    | .mapping p entries =>
      match depth with
      | 0 => failure
      | depth + 1 => do
        let entries ← entries.mapM fun (key, value) => do
          return (← ofNode anchored depth key, ← ofNode anchored depth value)
        if distinctKeys entries then (withTag p (.mapping entries)).elim failure pure else failure
  fun
    | .alias n => do
      let left ← get
      match left, anchored.findRev? (·.1 == n) with
      | left + 1, some (_, node) => do
        set left
        written node
      | _, _ => failure
    | node => written node

/-- How often each part of a document may be copied, on average. -/
def copyLimit : Nat := 100

def read? (s : String) : Option Yaml := do
  let named ← Node.read? s
  let (node, _) ← named.number []
  let (y, _) ← (ofNode node.anchored Node.nestingLimit node).run (copyLimit * node.events)
  return y

end Yaml
end PipelineResolution
