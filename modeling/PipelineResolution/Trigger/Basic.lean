import PipelineResolution.Schedule.Basic
import PipelineResolution.Step.Field
import PipelineResolution.Trigger.Capture

/-!
# Triggers

A trigger starts a pipeline: at the times of a schedule, for the changed rows of a query, or when a
request arrives. Its arguments may refer to `self`, which is what it was fired with.
-/
namespace PipelineResolution

structure QuerySource where
  schedule : Schedule
  sql : Option String
  database : Option String
  primaryKey : String
  captures : Captures

inductive TriggerSpec where
  | schedule (s : Schedule)
  | query (q : QuerySource)
  | http (mode : ExecutionMode)

namespace TriggerSpec

def kind : TriggerSpec → TriggerKind
  | .schedule _ => .schedule
  | .query _ => .query
  | .http _ => .http

def schedule? : TriggerSpec → Option Schedule
  | .schedule s => some s
  | .query q => some q.schedule
  | .http _ => none

/-- What stands for a trigger whose special attributes cannot be told; such a trigger is rejected. -/
def placeholder : TriggerSpec := .http .asynchronous

/-- The captures, by type in their order. -/
def captures : TriggerSpec → List (CaptureType × Capture)
  | .query q => q.captures.toList
  | _ => []

end TriggerSpec

/-- The attributes that all kinds of triggers share, as far as they are known. -/
structure TriggerHeader where
  title : Option String := none
  description : Option String := none
  enabled : Option Bool := none
  pipeline : Option Value := none
  arguments : Option (Dict Value) := none

namespace TriggerHeader

def fields : List (Field TriggerHeader) := [
  ⟨"title", .text, (·.title), fun s h => { h with title := some s }⟩,
  ⟨"description", .text, (·.description), fun s h => { h with description := some s }⟩,
  ⟨"enabled", .flag, (·.enabled), fun b h => { h with enabled := some b }⟩,
  ⟨"pipeline", .any, (·.pipeline), fun v h => { h with pipeline := some v }⟩,
  ⟨"args", .map, (·.arguments), fun d h => { h with arguments := some d }⟩]

end TriggerHeader

structure Trigger extends TriggerHeader where
  name : String
  spec : TriggerSpec
  dependencies : DependencySet
  /-- Attributes that are evaluated each time the trigger fires. -/
  deferred : Dict Expression
  location : Location

namespace Trigger

def kind (t : Trigger) : TriggerKind := t.spec.kind

def fullName (t : Trigger) : String := Keyword.spell t.kind ++ "." ++ t.name

/-- A trigger is disabled only by a known `false`. -/
def isEnabled (t : Trigger) : Bool := t.enabled != some false

def isResolved (t : Trigger) : Bool := t.deferred.isEmpty

def pipelineName? (t : Trigger) : Option String := t.pipeline >>= Value.pipelineName?

/-- The names of all pipelines that the trigger is known to run. -/
def pipelineNames (t : Trigger) : List String :=
  t.pipelineName?.toList ++ t.spec.captures.filterMap (·.2.pipelineName?)

/-- The arguments for one firing. -/
def argumentsAt (t : Trigger) (env : Environment) : Except Diagnostics (Dict Value) :=
  evaluateArguments t.arguments t.deferred t.location env

def kindNames : TriggerKind → List String
  | .schedule => ["schedule"]
  | .query => ["schedule", "sql", "database", "primary_key"]
  | .http => ["execution_mode"]

/-- Attributes that configure the trigger itself and have to be known. -/
def staticNames : List String := ["title", "description", "schedule", "primary_key", "execution_mode"]

def settle (ctx : ResolutionContext) (s : Settled) (a : Attribute) : Settled × Diagnostics :=
  if staticNames.contains a.name then s.addStatic ctx a else s.add ctx (fun _ v => .ok v) a

def textOf (b : Block) (s : Settled) (name : String) : Option String × Diagnostics :=
  match (s.values.get? name).map (AttributeType.text.convert name) with
  | none => (none, [])
  | some (.ok text) => (some text, [])
  | some (.error m) => (none, [m.toDiagnostic (b.location.child name)])

def broken (b : Block) (name summary detail : String) : Diagnostic :=
  (Diagnostic.validation summary detail).about (b.location.child name)

def lacking (b : Block) (name : String) : Diagnostics :=
  if (b.attribute? name).isNone then [b.missingArgument name] else []

def scheduleOf (b : Block) (s : Settled) : Option Schedule × Diagnostics :=
  match textOf b s "schedule" with
  | (none, ds) => (none, ds ++ lacking b "schedule")
  | (some text, ds) =>
    match Schedule.ofText text with
    | .ok schedule => (some schedule, ds)
    | .error e => (none, ds ++ [broken b "schedule" "Invalid schedule" e.message])

def modeOf (b : Block) (s : Settled) : Option ExecutionMode × Diagnostics :=
  match textOf b s "execution_mode" with
  | (none, ds) => (some .asynchronous, ds)
  | (some text, ds) =>
    match Keyword.parse ExecutionMode text with
    | .ok mode => (some mode, ds)
    | .error e => (none, ds ++ [broken b "execution_mode" "Invalid execution mode" e.message])

/-- What is special to a kind of trigger, if it can be told, with the dependencies found. -/
def specOf (kind : TriggerKind) (b : Block) (s : Settled) (ctx : ResolutionContext) :
    Option TriggerSpec × DependencySet × Diagnostics :=
  match kind with
  | .schedule =>
    let (schedule, ds) := scheduleOf b s
    (schedule.map .schedule, .empty, ds ++ b.blocks.map (·.unsupportedBlock "trigger"))
  | .http =>
    let (mode, ds) := modeOf b s
    (mode.map .http, .empty, b.blocks.map (·.unsupportedBlock "trigger") ++ ds)
  | .query =>
    let (schedule, ds) := scheduleOf b s
    let others := b.blocks.filter (·.type != "capture")
    let (key, keyed) := textOf b s "primary_key"
    let primaryKey := key.getD ""
    let emptyKey := if (Text.trim primaryKey).isEmpty then
        [broken b "primary_key" "Invalid query trigger" "primary_key must not be empty."]
      else []
    let (sql, queried) := textOf b s "sql"
    let (database, connected) := textOf b s "database"
    let ((captures, dependencies), captured) := Capture.ofBlocks b ctx
    (schedule.map fun schedule => .query ⟨schedule, sql, database, primaryKey, captures⟩,
      dependencies,
      ds ++ others.map (·.unsupportedBlock "trigger") ++ keyed ++ emptyKey ++ queried ++ connected
        ++ lacking b "sql" ++ lacking b "database" ++ captured)

/-- The reports on the pipeline of a trigger. Only a query trigger may leave it to its captures. -/
def checkPipeline (kind : TriggerKind) (b : Block) (s : Settled) (h : TriggerHeader) :
    Diagnostics :=
  match h.pipeline with
  | none =>
    if kind ≠ .query && !s.deferred.contains "pipeline" then [b.missingArgument "pipeline"] else []
  | some v =>
    if v.pipelineName?.isNone then [.invalidPipeline (b.location.child "pipeline")] else []

def ofKind (kind : TriggerKind) (name : String) (b : Block) (ctx : ResolutionContext) :
    Except Diagnostics Trigger :=
  let allowed := Field.names TriggerHeader.fields ++ kindNames kind
  let (s, settled) := Diagnostics.gather (settle ctx) {}
    (b.attributes.filter fun a => allowed.contains a.name)
  let (h, filled) := Field.fill TriggerHeader.fields [] b.location s.values {}
  let (spec, dependencies, special) := specOf kind b s ctx
  let ds := b.unsupportedAttributes allowed ++ settled ++ filled ++ checkPipeline kind b s h
    ++ special
  Diagnostics.orValue ds { h with
    name, spec := spec.getD .placeholder
    dependencies := s.dependencies.merge dependencies, deferred := s.deferred
    location := b.location }

/-- Decodes a block `trigger "<kind>" "<name>"`. -/
def ofBlock (b : Block) (ctx : ResolutionContext) : Except Diagnostics Trigger :=
  match b.labels with
  | [kind, name] =>
    match Keyword.parse TriggerKind kind with
    | .error e => .error [(Diagnostic.error "Invalid trigger type" e.message).about b.location]
    | .ok kind => ofKind kind name b (ctx.within .trigger)
  | _ => .error [(Diagnostic.error "Invalid trigger block"
      "A trigger block needs two labels: the trigger type and the trigger name.").about b.location]

end Trigger
end PipelineResolution
