import PipelineResolution.Json.Basic

/-!
# Dynamic values

Attributes evaluate to values, step outputs become values before an expression sees them, and the
inputs of a step are a dictionary of values. Values convert to JSON and back: a whole number within
the signed 64-bit range crosses as an integer, and a number without digits becomes null.
-/
namespace PipelineResolution

inductive Value where
  | null
  | bool (b : Bool)
  | number (n : Number)
  | string (s : String)
  | list (items : List Value)
  | map (entries : List (String × Value))
  deriving Inhabited

namespace Value

def typeName : Value → String
  | .null => "null"
  | .bool _ => "bool"
  | .number _ => "number"
  | .string _ => "string"
  | .list _ => "list"
  | .map _ => "map"

def isNull : Value → Bool
  | .null => true
  | _ => false

/-- Only `true` is true. -/
def isTrue : Value → Bool
  | .bool b => b
  | _ => false

def text? : Value → Option String
  | .string s => some s
  | _ => none

def bool? : Value → Option Bool
  | .bool b => some b
  | _ => none

def number? : Value → Option Number
  | .number n => some n
  | _ => none

def list? : Value → Option (List Value)
  | .list items => some items
  | _ => none

def map? : Value → Option (Dict Value)
  | .map entries => some entries
  | _ => none

def get? (v : Value) (key : String) : Option Value := v.map? >>= (·.get? key)

def ofInt (n : Int) : Value := .number (.ofInt n)

/-- A map from its entries; of two entries with one key the later counts. -/
def ofEntries (entries : List (String × Value)) : Value := .map (Dict.ofEntries entries)

/-- A whole number of magnitude at most `2 ^ 63`, cut to the signed 64-bit range. -/
def wordOf (n : Number) : Option Int :=
  match n.toInt? with
  | some k => if k.natAbs ≤ Word.count 63 then some (min k (Word.count 63 - 1)) else none
  | none => none

/-- The integer a number stands for. -/
def word? : Value → Option Int
  | .number n => wordOf n
  | _ => none

mutual
/-- Equality of values; numbers are compared numerically. -/
def equals : Value → Value → Bool
  | .null, .null => true
  | .bool a, .bool b => a == b
  | .number a, .number b => a.equals b
  | .string a, .string b => a == b
  | .list a, .list b => listEquals a b
  | .map a, .map b => entriesEqual a b
  | _, _ => false

def listEquals : List Value → List Value → Bool
  | [], [] => true
  | a :: as, b :: bs => a.equals b && listEquals as bs
  | _, _ => false

def entriesEqual : List (String × Value) → List (String × Value) → Bool
  | [], [] => true
  | (k, a) :: as, (l, b) :: bs => k == l && a.equals b && entriesEqual as bs
  | _, _ => false
end

instance : BEq Value := ⟨equals⟩

def numberToJson (n : Number) : Json :=
  match wordOf n with
  | some k => .int k
  | none => if n.isFinite then .float n else .null

mutual
def toJson : Value → Json
  | .null => .null
  | .bool b => .bool b
  | .number n => numberToJson n
  | .string s => .string s
  | .list items => .array (listToJson items)
  | .map entries => .object (entriesToJson entries)

def listToJson : List Value → List Json
  | [] => []
  | v :: vs => v.toJson :: listToJson vs

def entriesToJson : List (String × Value) → List (String × Json)
  | [] => []
  | (k, v) :: vs => (k, v.toJson) :: entriesToJson vs
end

mutual
/-- The value of a JSON document; every number becomes the nearest binary64 number. -/
def ofJson : Json → Value
  | .null => .null
  | .bool b => .bool b
  | .int n => .ofInt n
  | .float x => .number x
  | .string s => .string s
  | .array items => .list (listOfJson items)
  | .object fields => .map (entriesOfJson fields)

def listOfJson : List Json → List Value
  | [] => []
  | j :: js => ofJson j :: listOfJson js

def entriesOfJson : List (String × Json) → List (String × Value)
  | [] => []
  | (k, j) :: js => (k, ofJson j) :: entriesOfJson js
end

/-- The text of a value in messages and of a number or bool read as a string. -/
def display : Value → String
  | .null => "null"
  | .bool b => if b then "true" else "false"
  | .number n => if n.isZero then "0" else n.render .positional "NaN" "inf"
  | .string s => s
  | v => v.toJson.render

end Value
end PipelineResolution
