import PipelineResolution.Expression.Term
import PipelineResolution.Text.Marker
import PipelineResolution.Value.Basic

/-!
# What terms evaluate to

A datum is a value in which numbers are numerals and the entries of an object keep their order. A
value becomes a datum when it enters a term and a value again when it leaves.
-/
namespace PipelineResolution

inductive Datum where
  | null
  | bool (b : Bool)
  | number (n : Numeral)
  | string (s : String)
  | list (items : List Datum)
  | object (entries : List (String × Datum))
  deriving Inhabited

namespace Datum

mutual
/-- A value as a datum; a number without digits becomes null. -/
def ofValue : Value → Datum
  | .null => .null
  | .bool b => .bool b
  | .number x => if x.isFinite then .number (.ofNumber x) else .null
  | .string s => .string s
  | .list items => .list (listOfValues items)
  | .map entries => .object (entriesOfValues entries)

def listOfValues : List Value → List Datum
  | [] => []
  | v :: vs => ofValue v :: listOfValues vs

def entriesOfValues : List (String × Value) → List (String × Datum)
  | [] => []
  | (k, v) :: vs => (k, ofValue v) :: entriesOfValues vs
end

mutual
/-- A datum as a value, with the entries of objects in key order. -/
def toValue : Datum → Value
  | .null => .null
  | .bool b => .bool b
  | .number n => .number n.toNumber
  | .string s => .string s
  | .list items => .list (listToValues items)
  | .object entries => .map (Dict.ofEntries (entriesToValues entries))

def listToValues : List Datum → List Value
  | [] => []
  | d :: ds => d.toValue :: listToValues ds

def entriesToValues : List (String × Datum) → List (String × Value)
  | [] => []
  | (k, d) :: ds => (k, d.toValue) :: entriesToValues ds
end

def lookup (entries : List (String × Datum)) (key : String) : Option Datum :=
  (entries.find? (·.1 == key)).map (·.2)

/-- The entries with `d` under `key`; an entry that was there is replaced where it stands. -/
def put (entries : List (String × Datum)) (key : String) (d : Datum) : List (String × Datum) :=
  if entries.any (·.1 == key) then entries.map fun e => if e.1 == key then (key, d) else e
  else entries ++ [(key, d)]

mutual
/-- Equality of data: numbers numerically, objects without regard to order. -/
def equals : Datum → Datum → Bool
  | .null, .null => true
  | .bool a, .bool b => a == b
  | .number a, .number b => a.equals b
  | .string a, .string b => a == b
  | .list as, .list bs => listEquals as bs
  | .object as, .object bs => as.length == bs.length && entriesWithin as bs
  | _, _ => false

def listEquals : List Datum → List Datum → Bool
  | [], [] => true
  | a :: as, b :: bs => a.equals b && listEquals as bs
  | _, _ => false

/-- Every entry has an equal one among the others. -/
def entriesWithin : List (String × Datum) → List (String × Datum) → Bool
  | [], _ => true
  | (k, a) :: as, bs =>
    (match lookup bs k with
      | some b => a.equals b
      | none => false) && entriesWithin as bs
end

/-- Literal text in quotes, with the escapes of a document string. -/
private def quoteLiteral (s : String) : String :=
  Json.quote (String.ofList (Text.escapeMarkers s.toList))

private def indent (depth : Nat) : String := String.ofList (List.replicate (2 * depth) ' ')

/-- A string in quotes. A string with a marker is a template and stays as it is, any other is
spelled as literal text. -/
private def quote (s : String) : String :=
  if Text.hasMarker s.toList then "\"" ++ s ++ "\"" else quoteLiteral s

mutual
/-- Whether the last line of a datum before its closing brackets is an empty list or object. -/
def endsEmpty : Datum → Bool
  | .list items => listEndsEmpty items
  | .object entries => entriesEndEmpty entries
  | _ => false

def listEndsEmpty : List Datum → Bool
  | [] => true
  | [d] => d.endsEmpty
  | _ :: ds => listEndsEmpty ds

def entriesEndEmpty : List (String × Datum) → Bool
  | [] => true
  | [(_, d)] => d.endsEmpty
  | _ :: es => entriesEndEmpty es
end

mutual
/-- The text of a datum, at a depth of nesting: strings in quotes, one item of a list or an object
on each line. -/
def render (depth : Nat) : Datum → String
  | .null => "null"
  | .bool b => if b then "true" else "false"
  | .number n => n.display
  | .string s => quote s
  | .list [] => "[]"
  | .object [] => "\x7b\x7d"
  | .list items => "[\n" ++ renderItems (depth + 1) items ++ indent depth ++ "]"
  | .object entries => "\x7b\n" ++ renderEntries (depth + 1) entries ++ indent depth ++ "\x7d"

/-- The lines of list items; a comma follows neither the last item nor one that ends empty. -/
def renderItems (depth : Nat) : List Datum → String
  | [] => ""
  | d :: ds =>
    let comma := if ds.isEmpty || d.endsEmpty then "" else ","
    indent depth ++ d.render depth ++ comma ++ "\n" ++ renderItems depth ds

def renderEntries (depth : Nat) : List (String × Datum) → String
  | [] => ""
  | (k, d) :: ds =>
    indent depth ++ quoteLiteral k ++ " = " ++ d.render depth ++ "\n" ++ renderEntries depth ds
end

def display (d : Datum) : String := d.render 0

/-- The text of a datum in a template, where a string stands for itself. -/
def interpolate : Datum → String
  | .string s => s
  | d => d.display

end Datum
end PipelineResolution
