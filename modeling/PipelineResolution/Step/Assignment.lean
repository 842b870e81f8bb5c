import PipelineResolution.Step.Spec

/-!
# Assignments in place

A payload is set where it stands, one write after another. A place in an inner record or in an
option is reached by making what is around it where that is missing, and the value is read before
the way is taken: when it does not fit, nothing has been made. `StepSpec.set` tells the same by
payloads before and after.
-/
namespace PipelineResolution

/-- Writes to a payload. When they stop, what has been written before stays written. -/
abbrev Writing (P : Type) : Type → Type := ExceptT TypeMismatch (StateM P)

/-- Reads a value, reaches the record that has a field of a name, and writes the field there. -/
def Field.assign {P Q : Type} (fields : List (Field Q)) (name spelled : String) (v : Value)
    (reach : P → P) (within : (Q → Q) → P → P) : Writing P Unit :=
  match fields.find? (·.name == name) with
  | some f => do
    let data ← f.type.convert spelled v
    modify reach
    modify (within (f.put data))
  | none => return ()

def Payload.assignOwn {P : Type} [Payload P] (name spelled : String) (v : Value) :
    Writing P Unit :=
  Field.assign fields name spelled v id id

namespace HttpRequest

/-- Makes the credentials where there are none. -/
def reachAuth (p : HttpRequest) : HttpRequest := { p with auth := some (p.auth.getD {}) }

def withinAuth (change : BasicAuth → BasicAuth) (p : HttpRequest) : HttpRequest :=
  { p with auth := p.auth.map change }

def assign (name : String) (v : Value) : Writing HttpRequest Unit :=
  match authName? name with
  | some inner => Field.assign BasicAuth.fields inner name v reachAuth withinAuth
  | none => Payload.assignOwn name name v

end HttpRequest

namespace InputRequest

/-- Changes the first option of a value. -/
def withinOption (value : String) (change : InputOption → InputOption) (p : InputRequest) :
    InputRequest :=
  { p with options := p.options.modify (p.options.findIdx (·.value == value)) change }

def assign (name : String) (v : Value) : Writing InputRequest Unit :=
  match optionName? name with
  | some (value, field) =>
    Field.assign InputOption.fields field name v (·.declare value) (withinOption value)
  | none => Payload.assignOwn (notifyTarget name) name v

end InputRequest

/-- Stores the value of an attribute in a payload that stands somewhere. -/
def StepKind.assign : (kind : StepKind) → String → Value → Writing kind.Settings Unit
  | .http, name, v => HttpRequest.assign name v
  | .input, name, v => InputRequest.assign name v
  | .message, name, v => Payload.assignOwn (notifyTarget name) name v
  | .sleep, name, v | .email, name, v | .transform, name, v | .query, name, v
  | .pipeline, name, v | .function, name, v | .container, name, v =>
    Payload.assignOwn name name v

/-- The mismatch that stopped an assignment, if one did, and the payload as it was left. -/
def StepSpec.assign (s : StepSpec) (name : String) (v : Value) :
    Except TypeMismatch Unit × StepSpec :=
  let (outcome, settings) := (s.kind.assign name v).run s.settings
  (outcome, ⟨s.kind, settings⟩)

end PipelineResolution
