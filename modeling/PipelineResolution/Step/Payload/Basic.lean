import PipelineResolution.Step.Field

/-!
# Payloads

The payload of a step holds the settings of its kind. What a payload accepts, takes and hands to the
engine follows from its fields unless its kind says otherwise. Attributes of an inner block are
addressed with the name of the block and its labels before a dot.
-/
namespace PipelineResolution

class Payload (P : Type) where
  empty : P
  fields : List (Field P)
  /-- Types of the inner blocks that the kind owns. -/
  blocks : List String := []
  accepts (name : String) : Bool := (Field.names fields).contains name
  /-- Notes that an inner block is declared, before its attributes are set. -/
  openBlock (type : String) (labels : List String) (p : P) : P := p
  /-- Stores the value of an attribute. -/
  set (name : String) (v : Value) (p : P) : Except TypeMismatch P := Field.set fields name name v p
  /-- What the engine receives. -/
  inputs (p : P) : Dict Value := Dict.ofEntries (Field.values fields p)
  /-- The first attribute that a run cannot do without and that is not set. -/
  missing? (p : P) : Option String := none
  /-- The rules of the kind that the settings break. -/
  check (p : P) (location : Location) : Diagnostics := []
  /-- The names of the entries in JSON, in their order. -/
  entryNames : List String := Field.names fields
  toJson (p : P) : List (String × Json) := Field.toJson fields p
  ofJson? (record : Dict Json) : Option P := Field.ofJson? fields record empty

namespace Payload

/-- The first of some names whose setting is absent. -/
def firstUnset (settings : List (String × Bool)) : Option String :=
  (settings.find? fun (_, isSet) => !isSet).map Prod.fst

def broken (location : Location) (name summary detail : String) : Diagnostic :=
  (Diagnostic.validation summary detail).about (location.child name)

end Payload
end PipelineResolution
