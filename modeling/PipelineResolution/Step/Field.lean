import PipelineResolution.AttributeType

/-!
# Fields

A field ties an attribute to the place where a structure keeps its data. A structure lists its
fields once; setting an attribute by name, the inputs handed to the engine and the JSON form all
follow from that list.
-/
namespace PipelineResolution

structure Field (P : Type) where
  name : String
  type : AttributeType
  get : P → Option type.Data
  put : type.Data → P → P

namespace Field
variable {P : Type}

def names (fields : List (Field P)) : List String := fields.map (·.name)

/-- Sets the field of a name from a value; other names change nothing. A mismatch is reported under
the name as the author spelled it. -/
def set (fields : List (Field P)) (name spelled : String) (v : Value) (p : P) :
    Except TypeMismatch P :=
  match fields.find? (·.name == name) with
  | some f => (f.type.convert spelled v).map (f.put · p)
  | none => .ok p

def values (fields : List (Field P)) (p : P) : List (String × Value) :=
  fields.filterMap fun f => (f.get p).map fun data => (f.name, f.type.toValue data)

def toJson (fields : List (Field P)) (p : P) : List (String × Json) :=
  fields.filterMap fun f => (f.get p).map fun data => (f.name, f.type.toJson data)

/-- Sets the fields that a JSON record holds; null sets nothing. -/
def ofJson? (fields : List (Field P)) (record : Dict Json) (p : P) : Option P :=
  fields.foldlM (fun p f =>
    match record.get? f.name with
    | none | some .null => some p
    | some item => (f.type.ofJson? item).map (f.put · p)) p

/-- Sets fields from the values of a body. A value of the wrong type is reported at its attribute
and sets nothing, and neither does a null where that stands for absence. -/
def fill (fields : List (Field P)) (nullable : List String) (location : Location) (body : Dict Value)
    (p : P) : P × Diagnostics :=
  List.foldl (fun ((p, ds) : P × Diagnostics) (name, v) =>
    if v.isNull && nullable.contains name then (p, ds)
    else match set fields name name v p with
      | .ok p => (p, ds)
      | .error m => (p, ds ++ [m.toDiagnostic (location.child name)])) (p, []) body

end Field
end PipelineResolution
