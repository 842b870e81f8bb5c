import PipelineResolution.Keyword
import PipelineResolution.PipelineReference
import PipelineResolution.Step.Payload.Basic
import PipelineResolution.Text.Lowercase

/-!
# Payloads of steps that call something

Requests, queries, pipelines, functions and containers.
-/
namespace PipelineResolution

structure BasicAuth where
  username : Option String := none
  password : Option String := none
  deriving DecidableEq

namespace BasicAuth

def fields : List (Field BasicAuth) := [
  ⟨"username", .text, (·.username), fun s a => { a with username := some s }⟩,
  ⟨"password", .text, (·.password), fun s a => { a with password := some s }⟩]

def ofJson? (j : Json) : Option BasicAuth := do
  let record ← j.record? (Field.names fields)
  Field.ofJson? fields record {}

end BasicAuth

structure HttpRequest where
  url : Option String := none
  /-- As written; the rules of the kind ask for a known method in any case of letters. -/
  method : Option String := none
  body : Option Value := none
  headers : Option (Dict Value) := none
  insecure : Option Bool := none
  certificate : Option String := none
  timeout : Option Int := none
  auth : Option BasicAuth := none

namespace HttpRequest

def fields : List (Field HttpRequest) := [
  ⟨"url", .text, (·.url), fun s p => { p with url := some s }⟩,
  ⟨"method", .text, (·.method), fun s p => { p with method := some s }⟩,
  ⟨"request_body", .any, (·.body), fun v p => { p with body := some v }⟩,
  ⟨"request_headers", .map, (·.headers), fun d p => { p with headers := some d }⟩,
  ⟨"insecure", .flag, (·.insecure), fun b p => { p with insecure := some b }⟩,
  ⟨"ca_cert_pem", .text, (·.certificate), fun s p => { p with certificate := some s }⟩,
  ⟨"request_timeout_ms", .integer, (·.timeout), fun n p => { p with timeout := some n }⟩]

/-- The name of a field of the inner block. -/
def authName? (name : String) : Option String :=
  (Text.dropStart? "basic_auth." name).filter (Field.names BasicAuth.fields).contains

def effectiveMethod (p : HttpRequest) : String :=
  (p.method.map Text.lowercase).getD (Keyword.spell HttpMethod.get)

def check (p : HttpRequest) (location : Location) : Diagnostics :=
  (match p.method with
    | some method =>
      match Keyword.parse HttpMethod p.effectiveMethod with
      | .ok _ => []
      | .error e => [Payload.broken location "method" "Invalid http method"
          ("Unsupported method \"" ++ method ++ "\", expected one of: " ++ e.expected ++ ".")]
    | none => [])
  ++ match p.timeout with
    | some n =>
      if n < 0 then [Payload.broken location "request_timeout_ms" "Invalid request timeout"
        "request_timeout_ms must not be negative."]
      else []
    | none => []

instance : Payload HttpRequest where
  empty := {}
  fields := fields
  blocks := ["basic_auth"]
  accepts name := (Field.names fields).contains name || (authName? name).isSome
  set name v p :=
    match authName? name with
    | some inner => (Field.set BasicAuth.fields inner name v (p.auth.getD {})).map fun auth =>
        { p with auth := some auth }
    | none => Field.set fields name name v p
  inputs p :=
    Dict.ofEntries (Field.values fields p ++ [("method", .string p.effectiveMethod)]
      ++ (p.auth.map fun auth =>
        ("basic_auth", Value.ofEntries (Field.values BasicAuth.fields auth))).toList)
  missing? p := Payload.firstUnset [("url", p.url.isSome)]
  check := check
  entryNames := Field.names fields ++ ["basic_auth"]
  toJson p := Field.toJson fields p
    ++ Dict.field "basic_auth" (Json.ofFields <| Field.toJson BasicAuth.fields ·) p.auth
  ofJson? record := do
    let p ← Field.ofJson? fields record {}
    let auth ← record.optional "basic_auth" BasicAuth.ofJson?
    return { p with auth }

end HttpRequest

structure SqlQuery where
  sql : Option String := none
  database : Option String := none
  arguments : Option (List Value) := none

instance : Payload SqlQuery where
  empty := {}
  fields := [
    ⟨"sql", .text, (·.sql), fun s p => { p with sql := some s }⟩,
    ⟨"database", .text, (·.database), fun s p => { p with database := some s }⟩,
    ⟨"args", .list, (·.arguments), fun vs p => { p with arguments := some vs }⟩]
  missing? p := Payload.firstUnset [("sql", p.sql.isSome), ("database", p.database.isSome)]
  check p location :=
    if p.sql.any fun sql => (Text.trim sql).isEmpty then
      [Payload.broken location "sql" "Empty query" "The sql attribute must not be empty."]
    else []

structure PipelineCall where
  pipeline : Option Value := none
  arguments : Option (Dict Value) := none

instance : Payload PipelineCall where
  empty := {}
  fields := [
    ⟨"pipeline", .any, (·.pipeline), fun v p => { p with pipeline := some v }⟩,
    ⟨"args", .map, (·.arguments), fun d p => { p with arguments := some d }⟩]
  missing? p := Payload.firstUnset [("pipeline", p.pipeline.isSome)]
  check p location :=
    if p.pipeline.any (·.pipelineName?.isNone) then
      [.invalidPipeline (location.child "pipeline")]
    else []

structure FunctionCall where
  source : Option String := none
  handler : Option String := none
  runtime : Option String := none
  env : Option (Dict String) := none
  event : Option Value := none

instance : Payload FunctionCall where
  empty := {}
  fields := [
    ⟨"source", .text, (·.source), fun s p => { p with source := some s }⟩,
    ⟨"handler", .text, (·.handler), fun s p => { p with handler := some s }⟩,
    ⟨"runtime", .text, (·.runtime), fun s p => { p with runtime := some s }⟩,
    ⟨"env", .textMap, (·.env), fun d p => { p with env := some d }⟩,
    ⟨"event", .any, (·.event), fun v p => { p with event := some v }⟩]
  missing? p := Payload.firstUnset [("source", p.source.isSome)]

/-- A container that is run from an image or from a build source. -/
structure Container where
  image : Option String := none
  source : Option String := none
  cmd : Option (List String) := none
  entrypoint : Option (List String) := none
  env : Option (Dict String) := none
  cpuShares : Option Int := none
  memory : Option Int := none
  memoryReservation : Option Int := none
  memorySwap : Option Int := none
  memorySwappiness : Option Int := none
  readOnly : Option Bool := none
  user : Option String := none
  workdir : Option String := none

namespace Container

def fields : List (Field Container) := [
  ⟨"image", .text, (·.image), fun s p => { p with image := some s }⟩,
  ⟨"source", .text, (·.source), fun s p => { p with source := some s }⟩,
  ⟨"cmd", .textList, (·.cmd), fun ss p => { p with cmd := some ss }⟩,
  ⟨"entrypoint", .textList, (·.entrypoint), fun ss p => { p with entrypoint := some ss }⟩,
  ⟨"env", .textMap, (·.env), fun d p => { p with env := some d }⟩,
  ⟨"cpu_shares", .integer, (·.cpuShares), fun n p => { p with cpuShares := some n }⟩,
  ⟨"memory", .integer, (·.memory), fun n p => { p with memory := some n }⟩,
  ⟨"memory_reservation", .integer, (·.memoryReservation),
    fun n p => { p with memoryReservation := some n }⟩,
  ⟨"memory_swap", .integer, (·.memorySwap), fun n p => { p with memorySwap := some n }⟩,
  ⟨"memory_swappiness", .integer, (·.memorySwappiness),
    fun n p => { p with memorySwappiness := some n }⟩,
  ⟨"read_only", .flag, (·.readOnly), fun b p => { p with readOnly := some b }⟩,
  ⟨"user", .text, (·.user), fun s p => { p with user := some s }⟩,
  ⟨"workdir", .text, (·.workdir), fun s p => { p with workdir := some s }⟩]

def check (p : Container) (location : Location) : Diagnostics :=
  (if p.image.isSome && p.source.isSome then
    [(Diagnostic.validation "Conflicting attributes"
      "The image and source attributes are mutually exclusive.").about location]
  else [])
  ++ match p.memorySwappiness with
    | some n =>
      if 0 ≤ n ∧ n ≤ 100 then []
      else [Payload.broken location "memory_swappiness" "Invalid memory_swappiness"
        ("memory_swappiness must be between 0 and 100, got " ++ toString n ++ ".")]
    | none => []

instance : Payload Container where
  empty := {}
  fields := fields
  missing? p := Payload.firstUnset [("image", p.image.isSome || p.source.isSome)]
  check := check

end Container
end PipelineResolution
