import PipelineResolution.Step.Payload.Action
import PipelineResolution.Step.Payload.Contact
import PipelineResolution.Step.Payload.Pure

/-!
# Step kinds and their payloads

The kind of a step decides the type of its payload, so a payload of another kind cannot be met and
every operation keeps the kind.
-/
namespace PipelineResolution

def StepKind.Settings : StepKind → Type
  | .http => HttpRequest
  | .sleep => Sleep
  | .email => Email
  | .transform => Transform
  | .query => SqlQuery
  | .pipeline => PipelineCall
  | .function => FunctionCall
  | .container => Container
  | .input => InputRequest
  | .message => Message

instance : (kind : StepKind) → Payload kind.Settings
  | .http => inferInstanceAs (Payload HttpRequest)
  | .sleep => inferInstanceAs (Payload Sleep)
  | .email => inferInstanceAs (Payload Email)
  | .transform => inferInstanceAs (Payload Transform)
  | .query => inferInstanceAs (Payload SqlQuery)
  | .pipeline => inferInstanceAs (Payload PipelineCall)
  | .function => inferInstanceAs (Payload FunctionCall)
  | .container => inferInstanceAs (Payload Container)
  | .input => inferInstanceAs (Payload InputRequest)
  | .message => inferInstanceAs (Payload Message)

/-- Whether steps of a kind take an attribute. -/
def StepKind.accepts (kind : StepKind) (name : String) : Bool :=
  Payload.accepts kind.Settings name

def StepKind.acceptsBlock (kind : StepKind) (type : String) : Bool :=
  (Payload.blocks kind.Settings).contains type

/-- A kind with settings of that kind. -/
structure StepSpec where
  kind : StepKind
  settings : kind.Settings

namespace StepSpec

def ofKind (kind : StepKind) : StepSpec := ⟨kind, Payload.empty⟩

instance : Inhabited StepSpec := ⟨ofKind .http⟩

def openBlock (s : StepSpec) (type : String) (labels : List String) : StepSpec :=
  ⟨s.kind, Payload.openBlock type labels s.settings⟩

def set (s : StepSpec) (name : String) (v : Value) : Except TypeMismatch StepSpec :=
  (Payload.set name v s.settings).map (⟨s.kind, ·⟩)

def inputs (s : StepSpec) : Dict Value := Payload.inputs s.settings

def missing? (s : StepSpec) : Option String := Payload.missing? s.settings

def check (s : StepSpec) (location : Location) : Diagnostics := Payload.check s.settings location

def toJson (s : StepSpec) : Json :=
  Json.ofFields (("kind", Keyword.toJson s.kind) :: Payload.toJson s.settings)

private def ofRecord? (kind : String) (record : List String → Option (Dict Json)) :
    Option StepSpec := do
  let kind ← (Keyword.parse StepKind kind).toOption
  let record ← record (Payload.entryNames kind.Settings)
  let settings ← Payload.ofJson? record
  return ⟨kind, settings⟩

def ofJson? : Json → Option StepSpec
  | .object fields => do
    let kind ← Dict.get? fields "kind" >>= Json.text?
    ofRecord? kind fun _ => some fields
  | .array (.string kind :: items) => ofRecord? kind (Json.array items).record?
  | _ => none

end StepSpec
end PipelineResolution
