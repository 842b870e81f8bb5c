import PipelineResolution.Value.Basic

/-!
# Outputs of executed steps

What the engine records about one run of a step, and the value that expressions see for it: the
data entries with the engine's own `status` and `errors` over them.
-/
namespace PipelineResolution

structure ErrorDetail where
  instanceId : String
  detail : String
  type : String
  title : String
  status : Nat
  deriving DecidableEq

structure StepError where
  pipelineExecution : String
  stepExecution : String
  pipeline : String
  step : String
  error : ErrorDetail
  deriving DecidableEq

/-- The outcome of one run of a step. -/
structure Output where
  status : String
  data : Dict Value
  errors : List StepError
  deriving Inhabited

def ErrorDetail.toValue (e : ErrorDetail) : Value :=
  .ofEntries [("instance", .string e.instanceId), ("detail", .string e.detail),
    ("type", .string e.type), ("title", .string e.title), ("status", .ofInt e.status)]

def StepError.toValue (e : StepError) : Value :=
  .ofEntries [("pipeline_execution_id", .string e.pipelineExecution),
    ("step_execution_id", .string e.stepExecution), ("pipeline", .string e.pipeline),
    ("step", .string e.step), ("error", e.error.toValue)]

namespace Output

def hasErrors (o : Output) : Bool := !o.errors.isEmpty

/-- The entries that the engine itself sets. -/
def engineEntries (o : Output) : List (String × Value) :=
  (if o.status.isEmpty then [] else [("status", .string o.status)])
    ++ (if o.errors.isEmpty then [] else [("errors", .list (o.errors.map StepError.toValue))])

/-- The data entries that the engine's own entries hide. -/
def shadowedKeys (o : Output) : List String :=
  (o.engineEntries.map Prod.fst).filter o.data.contains

/-- What expressions see. -/
def toValue (o : Output) : Value :=
  .map (o.engineEntries.foldl (fun d (k, v) => Dict.insert d k v) o.data)

end Output

def ErrorDetail.toJson (e : ErrorDetail) : Json :=
  Json.ofFields [("instance", .string e.instanceId), ("detail", .string e.detail),
    ("type", .string e.type), ("title", .string e.title), ("status", .int e.status)]

def shortWord? : Json → Option Nat
  | .int n => if 0 ≤ n ∧ n < Word.count 16 then some n.toNat else none
  | _ => none

def ErrorDetail.ofJson? (j : Json) : Option ErrorDetail := do
  let fields ← j.record? ["instance", "detail", "type", "title", "status"]
  let instanceId ← fields.required "instance" Json.text?
  let detail ← fields.required "detail" Json.text?
  let type ← fields.required "type" Json.text?
  let title ← fields.required "title" Json.text?
  let status ← fields.required "status" shortWord?
  return ⟨instanceId, detail, type, title, status⟩

def StepError.toJson (e : StepError) : Json :=
  Json.ofFields [("pipeline_execution_id", .string e.pipelineExecution),
    ("step_execution_id", .string e.stepExecution), ("pipeline", .string e.pipeline),
    ("step", .string e.step), ("error", e.error.toJson)]

def StepError.ofJson? (j : Json) : Option StepError := do
  let fields ← j.record?
    ["pipeline_execution_id", "step_execution_id", "pipeline", "step", "error"]
  let pipelineExecution ← fields.required "pipeline_execution_id" Json.text?
  let stepExecution ← fields.required "step_execution_id" Json.text?
  let pipeline ← fields.required "pipeline" Json.text?
  let step ← fields.required "step" Json.text?
  let error ← fields.required "error" ErrorDetail.ofJson?
  return ⟨pipelineExecution, stepExecution, pipeline, step, error⟩

namespace Output

def toJson (o : Output) : Json :=
  Json.ofFields
    ([("status", .string o.status), ("data", .object (Value.entriesToJson o.data))]
      ++ (if o.errors.isEmpty then [] else [("errors", .array (o.errors.map StepError.toJson))]))

def data? (j : Json) : Option (Dict Value) := j.fields?.map Value.entriesOfJson

def errors? (j : Json) : Option (List StepError) := j.items? >>= (·.mapM StepError.ofJson?)

def ofJson? (j : Json) : Option Output := do
  let fields ← j.record? ["status", "data", "errors"]
  let status ← fields.defaulted "status" "" Json.text?
  let data ← fields.defaulted "data" [] data?
  let errors ← fields.defaulted "errors" [] errors?
  return ⟨status, data, errors⟩

end Output
end PipelineResolution
