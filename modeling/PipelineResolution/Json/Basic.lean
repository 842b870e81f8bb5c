import PipelineResolution.Number.Decimal
import PipelineResolution.Number.Word
import PipelineResolution.Dict

/-!
# JSON documents

The document type and its compact text. A number is either an integer or a binary64 number; a
number without digits is written as `null`.
-/
namespace PipelineResolution

inductive Json where
  | null
  | bool (b : Bool)
  | int (n : Int)
  | float (x : Number)
  | string (s : String)
  | array (items : List Json)
  | object (fields : List (String × Json))
  deriving Inhabited

namespace Json

private def hexDigit (n : Nat) : Char := (Nat.digitChar n)

/-- How one character stands between the quotes of a string. -/
def escapeChar (c : Char) : List Char :=
  if c == '"' then ['\\', '"']
  else if c == '\\' then ['\\', '\\']
  else if c == '\n' then ['\\', 'n']
  else if c == '\r' then ['\\', 'r']
  else if c == '\t' then ['\\', 't']
  else if c.toNat == 8 then ['\\', 'b']
  else if c.toNat == 12 then ['\\', 'f']
  else if c.toNat < 32 then
    ['\\', 'u', '0', '0', hexDigit (c.toNat / 16), hexDigit (c.toNat % 16)]
  else [c]

def quote (s : String) : String :=
  "\"" ++ String.ofList (s.toList.flatMap escapeChar) ++ "\""

mutual
/-- The text of a document, without blanks. -/
def render : Json → String
  | .null => "null"
  | .bool b => if b then "true" else "false"
  | .int n => toString n
  | .float x => if x.isFinite then x.render .signed "" "" else "null"
  | .string s => quote s
  | .array items => "[" ++ renderItems items ++ "]"
  | .object fields => "\x7b" ++ renderFields fields ++ "\x7d"

def renderItems : List Json → String
  | [] => ""
  | [item] => item.render
  | item :: items => item.render ++ "," ++ renderItems items

def renderFields : List (String × Json) → String
  | [] => ""
  | [(key, item)] => quote key ++ ":" ++ item.render
  | (key, item) :: fields => quote key ++ ":" ++ item.render ++ "," ++ renderFields fields
end

/-- An object from its fields; of two fields with one key the later counts. -/
def ofFields (fields : List (String × Json)) : Json := .object (Dict.ofEntries fields)

def text? : Json → Option String
  | .string s => some s
  | _ => none

def bool? : Json → Option Bool
  | .bool b => some b
  | _ => none

/-- An integer of a signed 64-bit word. -/
def word? : Json → Option Int
  | .int n => if Word.isSigned n then some n else none
  | _ => none

def items? : Json → Option (List Json)
  | .array items => some items
  | _ => none

def fields? : Json → Option (Dict Json)
  | .object fields => some fields
  | _ => none

/-- The fields of a record. It is written as an object or as the list of its fields in order. -/
def record? (names : List String) : Json → Option (Dict Json)
  | .object fields => some fields
  | .array items =>
    if items.length ≤ names.length then some (Dict.ofEntries (names.zip items)) else none
  | _ => none

end Json

namespace Dict

def required (fields : Dict Json) (name : String) (decode : Json → Option α) : Option α :=
  fields.get? name >>= decode

def defaulted (fields : Dict Json) (name : String) (default : α) (decode : Json → Option α) :
    Option α :=
  match fields.get? name with
  | none => some default
  | some item => decode item

/-- A field that may be absent or null. -/
def optional (fields : Dict Json) (name : String) (decode : Json → Option α) :
    Option (Option α) :=
  match fields.get? name with
  | none => some none
  | some .null => some none
  | some item => (decode item).map some

/-- The field of an optional value, absent when there is none. -/
def field (name : String) (encode : α → Json) (value : Option α) : List (String × Json) :=
  (value.map fun v => (name, encode v)).toList

end Dict
end PipelineResolution
