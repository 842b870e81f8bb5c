import PipelineResolution.Keyword
import PipelineResolution.Step.Payload.Basic

/-!
# Payloads of steps that reach people

Emails, messages and requests for input.
-/
namespace PipelineResolution

structure Email where
  recipients : Option (List String) := none
  sender : Option String := none
  senderName : Option String := none
  host : Option String := none
  port : Option Int := none
  username : Option String := none
  password : Option String := none
  subject : Option String := none
  contentType : Option String := none
  body : Option String := none
  cc : Option (List String) := none
  bcc : Option (List String) := none

namespace Email

def fields : List (Field Email) := [
  ⟨"to", .textList, (·.recipients), fun ss p => { p with recipients := some ss }⟩,
  ⟨"from", .text, (·.sender), fun s p => { p with sender := some s }⟩,
  ⟨"sender_name", .text, (·.senderName), fun s p => { p with senderName := some s }⟩,
  ⟨"host", .text, (·.host), fun s p => { p with host := some s }⟩,
  ⟨"port", .integer, (·.port), fun n p => { p with port := some n }⟩,
  ⟨"username", .text, (·.username), fun s p => { p with username := some s }⟩,
  ⟨"password", .text, (·.password), fun s p => { p with password := some s }⟩,
  ⟨"subject", .text, (·.subject), fun s p => { p with subject := some s }⟩,
  ⟨"content_type", .text, (·.contentType), fun s p => { p with contentType := some s }⟩,
  ⟨"body", .text, (·.body), fun s p => { p with body := some s }⟩,
  ⟨"cc", .textList, (·.cc), fun ss p => { p with cc := some ss }⟩,
  ⟨"bcc", .textList, (·.bcc), fun ss p => { p with bcc := some ss }⟩]

def check (p : Email) (location : Location) : Diagnostics :=
  (match p.port with
    | some n =>
      if 1 ≤ n ∧ n ≤ 65535 then []
      else [Payload.broken location "port" "Invalid port"
        ("Port " ++ toString n ++ " is outside 1..=65535.")]
    | none => [])
  ++ if p.recipients.any (·.isEmpty) then
      [Payload.broken location "to" "Missing recipients" "The to list must not be empty."]
    else []

instance : Payload Email where
  empty := {}
  fields := fields
  missing? p := Payload.firstUnset [("to", p.recipients.isSome), ("host", p.host.isSome)]
  check := check

end Email

/-- Attributes that may also stand in a `notify` block. -/
def notifyNames : List String := ["notifier", "subject", "channel", "to", "cc", "bcc"]

/-- An attribute's own name, whether or not it is addressed through a `notify` block. -/
def notifyTarget (name : String) : String := (Text.dropStart? "notify." name).getD name

def isNotifyName (name : String) : Bool :=
  (Text.dropStart? "notify." name).any notifyNames.contains

structure Message where
  notifier : Option Value := none
  text : Option String := none
  subject : Option String := none
  channel : Option String := none
  recipients : Option (List String) := none
  cc : Option (List String) := none
  bcc : Option (List String) := none

namespace Message

def fields : List (Field Message) := [
  ⟨"notifier", .any, (·.notifier), fun v p => { p with notifier := some v }⟩,
  ⟨"text", .text, (·.text), fun s p => { p with text := some s }⟩,
  ⟨"subject", .text, (·.subject), fun s p => { p with subject := some s }⟩,
  ⟨"channel", .text, (·.channel), fun s p => { p with channel := some s }⟩,
  ⟨"to", .textList, (·.recipients), fun ss p => { p with recipients := some ss }⟩,
  ⟨"cc", .textList, (·.cc), fun ss p => { p with cc := some ss }⟩,
  ⟨"bcc", .textList, (·.bcc), fun ss p => { p with bcc := some ss }⟩]

instance : Payload Message where
  empty := {}
  fields := fields
  blocks := ["notify"]
  accepts name := (Field.names fields).contains name || isNotifyName name
  set name v p := Field.set fields (notifyTarget name) name v p
  missing? p := Payload.firstUnset [("text", p.text.isSome)]

end Message

structure InputOption where
  value : String
  label : Option String := none
  selected : Option Bool := none
  style : Option String := none
  deriving DecidableEq

namespace InputOption

def fields : List (Field InputOption) := [
  ⟨"label", .text, (·.label), fun s o => { o with label := some s }⟩,
  ⟨"selected", .flag, (·.selected), fun b o => { o with selected := some b }⟩,
  ⟨"style", .text, (·.style), fun s o => { o with style := some s }⟩]

def toValue (o : InputOption) : Value :=
  .ofEntries (("value", .string o.value) :: Field.values fields o)

def toJson (o : InputOption) : Json :=
  Json.ofFields (("value", .string o.value) :: Field.toJson fields o)

def ofJson? (j : Json) : Option InputOption := do
  let record ← j.record? ("value" :: Field.names fields)
  let value ← record.required "value" Json.text?
  Field.ofJson? fields record { value }

end InputOption

structure InputRequest where
  prompt : Option String := none
  /-- As written; the rules of the kind ask for a known type. -/
  type : Option String := none
  notifier : Option Value := none
  subject : Option String := none
  channel : Option String := none
  recipients : Option (List String) := none
  cc : Option (List String) := none
  bcc : Option (List String) := none
  /-- In the order of their declaration, each value once. -/
  options : List InputOption := []

namespace InputRequest

def fields : List (Field InputRequest) := [
  ⟨"prompt", .text, (·.prompt), fun s p => { p with prompt := some s }⟩,
  ⟨"type", .text, (·.type), fun s p => { p with type := some s }⟩,
  ⟨"notifier", .any, (·.notifier), fun v p => { p with notifier := some v }⟩,
  ⟨"subject", .text, (·.subject), fun s p => { p with subject := some s }⟩,
  ⟨"channel", .text, (·.channel), fun s p => { p with channel := some s }⟩,
  ⟨"to", .textList, (·.recipients), fun ss p => { p with recipients := some ss }⟩,
  ⟨"cc", .textList, (·.cc), fun ss p => { p with cc := some ss }⟩,
  ⟨"bcc", .textList, (·.bcc), fun ss p => { p with bcc := some ss }⟩]

/-- The option value and the field in a name `option.<value>.<field>`. -/
def optionName? (name : String) : Option (String × String) :=
  (Text.dropStart? "option." name >>= Text.cutLast '.').filter fun (_, field) =>
    (Field.names InputOption.fields).contains field

def option? (p : InputRequest) (value : String) : Option InputOption :=
  p.options.find? (·.value == value)

/-- Stores an option in the place of the first with its value, or as the last. -/
def putOption (o : InputOption) : List InputOption → List InputOption
  | [] => [o]
  | other :: os => if other.value == o.value then o :: os else other :: putOption o os

/-- The option of a value, new when none is declared. -/
def optionOf (p : InputRequest) (value : String) : InputOption := (p.option? value).getD { value }

def declare (p : InputRequest) (value : String) : InputRequest :=
  { p with options := putOption (p.optionOf value) p.options }

def checkStyle (location : Location) (o : InputOption) : Diagnostics :=
  match o.style.map (Keyword.parse OptionStyle) with
  | some (.error e) =>
    [Payload.broken ((location.child "option").child o.value) "style" "Invalid option style" e.message]
  | _ => []

def check (p : InputRequest) (location : Location) : Diagnostics :=
  (match p.type with
    | some type =>
      match Keyword.parse InputType type with
      | .ok .text => []
      | .ok _ =>
        if p.options.isEmpty then
          [(Diagnostic.validation "Missing options"
            ("An input of type \"" ++ type ++ "\" needs at least one option block.")).about location]
        else []
      | .error e => [Payload.broken location "type" "Invalid input type" e.message]
    | none => [])
  ++ p.options.flatMap (checkStyle location)

instance : Payload InputRequest where
  empty := {}
  fields := fields
  blocks := ["option", "notify"]
  accepts name :=
    (Field.names fields).contains name || isNotifyName name || (optionName? name).isSome
  openBlock
    | "option", [value], p => p.declare value
    | _, _, p => p
  set name v p :=
    match optionName? name with
    | some (value, field) => (Field.set InputOption.fields field name v (p.optionOf value)).map
        fun o => { p with options := putOption o p.options }
    | none => Field.set fields (notifyTarget name) name v p
  inputs p :=
    Dict.ofEntries (Field.values fields p ++ (if p.options.isEmpty then []
      else [("options", .list (p.options.map InputOption.toValue))]))
  missing? p := Payload.firstUnset [("type", p.type.isSome)]
  check := check
  entryNames := Field.names fields ++ ["options"]
  toJson p := Field.toJson fields p ++ (if p.options.isEmpty then []
    else [("options", .array (p.options.map InputOption.toJson))])
  ofJson? record := do
    let p ← Field.ofJson? fields record {}
    let options ← record.defaulted "options" [] fun j => j.items? >>= (·.mapM InputOption.ofJson?)
    return { p with options }

end InputRequest
end PipelineResolution
