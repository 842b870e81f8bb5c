import PipelineResolution.Diagnostic.Basic
import PipelineResolution.Value.Basic

/-!
# Types of attributes

An attribute asks for values of one type. A number or truth value also counts as its text, and a text
as the integer or truth value that it spells. A value that does not fit is reported with the type
that was asked for and the type that was found.
-/
namespace PipelineResolution

inductive AttributeType where
  | text | flag | integer | textList | textMap | list | map | any
  /-- A count of milliseconds or a text with a unit. -/
  | duration
  deriving DecidableEq

structure TypeMismatch where
  name : String
  expected : String
  actual : String
  deriving DecidableEq, Inhabited

def TypeMismatch.toDiagnostic (m : TypeMismatch) (subject : Location) : Diagnostic :=
  (Diagnostic.error "Incorrect attribute value type"
    ("Inappropriate value for attribute \"" ++ m.name ++ "\": " ++ m.expected
      ++ " required, got " ++ m.actual ++ ".")).about subject

namespace AttributeType

def Data : AttributeType → Type
  | .text => String
  | .flag => Bool
  | .integer => Int
  | .textList => List String
  | .textMap => Dict String
  | .list => List Value
  | .map => Dict Value
  | .any | .duration => Value

def name : AttributeType → String
  | .text => "string"
  | .flag => "bool"
  | .integer => "whole number"
  | .textList => "list of string"
  | .textMap => "map of string"
  | .list => "list"
  | .map => "map"
  | .any => "value"
  | .duration => "number or string"

private def asText : Value → Except Value String
  | .string s => .ok s
  | .number n => .ok (Value.number n).display
  | .bool b => .ok (Value.bool b).display
  | other => .error other

private def asFlag : Value → Except Value Bool
  | .bool b => .ok b
  | .string "true" => .ok true
  | .string "false" => .ok false
  | other => .error other

private def asInteger (v : Value) : Except Value Int :=
  match v.word? <|> (v.text? >>= fun s => Text.word? (Text.trimChars s.toList)) with
  | some n => .ok n
  | none => .error v

private def itemText : Value → Except Value String
  | .string s => .ok s
  | other => .error other

/-- The data in a value, or the value or element that does not fit. -/
def read : (t : AttributeType) → Value → Except Value t.Data
  | .text, v => asText v
  | .flag, v => asFlag v
  | .integer, v => asInteger v
  | .textList, .string s => .ok [s]
  | .textList, .list items => items.mapM itemText
  | .textMap, .map entries => entries.mapM fun (k, v) => (asText v).map fun s => (k, s)
  | .list, .list items => .ok items
  | .map, .map entries => .ok entries
  | .any, v => .ok v
  | .duration, .number n => .ok (.number n)
  | .duration, .string s => .ok (.string s)
  | .textList, v | .textMap, v | .list, v | .map, v | .duration, v => .error v

def convert (t : AttributeType) (name : String) (v : Value) : Except TypeMismatch t.Data :=
  (t.read v).mapError fun found => ⟨name, t.name, found.typeName⟩

def toValue : (t : AttributeType) → t.Data → Value
  | .text, (s : String) => .string s
  | .flag, (b : Bool) => .bool b
  | .integer, (n : Int) => .ofInt n
  | .textList, (items : List String) => .list (items.map .string)
  | .textMap, (entries : Dict String) => .map (entries.mapValues .string)
  | .list, (items : List Value) => .list items
  | .map, (entries : Dict Value) => .map entries
  | .any, (v : Value) | .duration, (v : Value) => v

/-- Data in JSON, where an integer keeps all its digits. -/
def toJson : (t : AttributeType) → t.Data → Json
  | .integer, (n : Int) => .int n
  | t, data => (t.toValue data).toJson

def ofJson? : (t : AttributeType) → Json → Option t.Data
  | .text, j => j.text?
  | .flag, j => j.bool?
  | .integer, j => j.word?
  | .textList, j => j.items? >>= (·.mapM Json.text?)
  | .textMap, j => j.fields? >>= (·.mapM fun (k, item) => item.text?.map fun s => (k, s))
  | .list, j => j.items?.map (·.map Value.ofJson)
  | .map, j => j.fields?.map (·.mapValues Value.ofJson)
  | .any, j | .duration, j => some (.ofJson j)

end AttributeType
end PipelineResolution
