import PipelineResolution.Document.Decode
import PipelineResolution.Pipeline.Basic
import PipelineResolution.Trigger.Basic

/-!
# Catalogs

A document holds pipelines and triggers. Each is decoded on its own: what is broken is reported and
left out, and the rest goes into the catalog. Pipelines come before triggers, since a trigger may
only run a pipeline of the catalog.
-/
namespace PipelineResolution

/-- What documents are read with. -/
structure Loader where
  config : ResolverConfig := {}
  /-- How the reports on what cannot be evaluated are worded. -/
  wording : Wording := .brief

structure Catalog where
  pipelines : Dict Pipeline
  /-- By full name. -/
  triggers : Dict Trigger
  /-- By resource: `pipeline.<name>`, `trigger.<kind>.<name>`, or `document` for the root. -/
  reports : Dict Diagnostics

namespace Catalog

def empty : Catalog := ⟨[], [], []⟩

def documentResource : String := "document"

/-- The resource that the reports on a top-level block stand under. -/
def resourceOf (b : Block) : String := ".".intercalate (b.type :: b.labels)

def isComplete (c : Catalog) : Bool := c.reports.values.all fun ds => !Diagnostics.hasErrors ds

/-- Every report, in the order of the resources. -/
def allReports (c : Catalog) : Diagnostics := c.reports.values.flatten

def orReports (c : Catalog) : Except Diagnostics Catalog :=
  if c.isComplete then .ok c else .error c.allReports

def report (c : Catalog) (resource : String) (ds : Diagnostics) : Catalog :=
  if ds.isEmpty then c
  else { c with reports := c.reports.insert resource ((c.reports.get? resource).getD [] ++ ds) }

def duplicate (what name : String) (b : Block) : Diagnostic :=
  (Diagnostic.error ("Duplicate " ++ what)
    ("A " ++ what ++ " named \"" ++ name ++ "\" was already loaded.")).about b.location

/-- A text that an attribute gives without any variable. -/
def constantText? (b : Block) (name : String) : Option String := do
  let a ← b.attribute? name
  let v ← (a.expression.evaluate .empty).toOption
  v.text?

/-- What expressions see of a pipeline before it is decoded. -/
def announced (b : Block) : Option (String × Value) := do
  let name ← b.label? 0
  return (name, Pipeline.objectOf name (constantText? b "title") (constantText? b "description"))

/-- The environment in which a document is read: `pipeline` binds every pipeline of it by name. -/
def definitions (blocks : List Block) : Environment :=
  Environment.empty.set "pipeline"
    (.ofEntries ((blocks.filter (·.type == "pipeline")).filterMap announced))

/-- The block's own reports, or what it declares. -/
def decode (b : Block) (decoded : Except Diagnostics α) : Except Diagnostics α :=
  if b.allDiagnostics.hasErrors then .error b.allDiagnostics else decoded

def addPipeline (ctx : ResolutionContext) (c : Catalog) (b : Block) : Catalog :=
  match decode b (Pipeline.ofBlock b ctx) with
  | .error ds => c.report (resourceOf b) ds
  | .ok p =>
    if c.pipelines.contains p.name then
      c.report (resourceOf b) [duplicate "pipeline" p.name b]
    else { c with pipelines := c.pipelines.insert p.name p }

/-- The reports on pipelines that a trigger runs and that are not in the catalog. -/
def unknownPipelines (c : Catalog) (t : Trigger) (b : Block) : Diagnostics :=
  (t.pipelineNames.filter fun name => !c.pipelines.contains name).map fun name =>
    (Diagnostic.error "Unknown pipeline" ("Trigger \"" ++ t.fullName ++ "\" runs pipeline \"" ++ name
      ++ "\", which was not loaded.")).about b.location

def addTrigger (ctx : ResolutionContext) (c : Catalog) (b : Block) : Catalog :=
  match decode b (Trigger.ofBlock b ctx) with
  | .error ds => c.report (resourceOf b) ds
  | .ok t =>
    let ds := b.allDiagnostics ++ c.unknownPipelines t b
      ++ if c.triggers.contains t.fullName then [duplicate "trigger" t.fullName b] else []
    if Diagnostics.hasErrors ds then c.report (resourceOf b) ds
    else { c with triggers := c.triggers.insert t.fullName t }

def ofDocument (d : Document) (loader : Loader) : Catalog :=
  let ctx : ResolutionContext :=
    { environment := definitions d.blocks, config := loader.config, wording := loader.wording }
  let c := empty.report documentResource d.diagnostics
  let c := (d.blocks.filter (·.type == "pipeline")).foldl (addPipeline ctx) c
  (d.blocks.filter (·.type == "trigger")).foldl (addTrigger ctx) c

/-- The catalog of a text, whose file is the one that the configuration names. -/
def ofText (text : String) (loader : Loader) : Except DecodeError Catalog :=
  (Document.decode text loader.config.file).map (ofDocument · loader)

end Catalog

inductive LoadError where
  | decode (e : DecodeError)
  | config
  | unreadable (path : String)

/-- Reads a document from one of some files by name. A configuration file that does not exist stands
for the defaults; a configuration may name another file in the locations. -/
def Catalog.ofFile (files : Dict String) (configFile path : String) (wording : Wording) :
    Except LoadError (ResolverConfig × Catalog) := do
  let config ← match files.get? configFile with
    | none => .ok {}
    | some text =>
      match ResolverConfig.ofToml? text with
      | some config => .ok config
      | none => .error .config
  match files.get? path with
  | none => .error (.unreadable path)
  | some text =>
    match Document.decode text (some (config.file.getD path)) with
    | .ok d => return (config, Catalog.ofDocument d { config, wording })
    | .error e => .error (.decode e)

end PipelineResolution
