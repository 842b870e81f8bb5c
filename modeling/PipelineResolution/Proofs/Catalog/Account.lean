import PipelineResolution.Proofs.Catalog.Pass
import PipelineResolution.Proofs.Document.Layout

/-!
# Catalogs account for their documents

Every block of a document is in the catalog or reported as an error under its resource. A name
belongs to the first block that declares it and has no error of its own, and a catalog is complete
exactly when nothing is wrong at the root of the document and every block was taken up.
-/
namespace PipelineResolution.Catalog
variable {d : Document} {loader : Loader} {before after : List Block} {b : Block}
  {p : Pipeline} {t : Trigger}

/-- At its turn after the blocks before it, a block puts a pipeline under a free name. -/
structure EntersPipeline (d : Document) (loader : Loader) (before : List Block) (b : Block)
    (p : Pipeline) : Prop where
  type : b.type = "pipeline"
  free : (pipelinesAfter d loader before).pipelines.get? p.name = none
  entered : (pipelinesAfter d loader (before ++ [b])).pipelines.get? p.name = some p

/-- At its turn after all pipelines and the blocks before it, a block puts a trigger under a free
name. -/
structure EntersTrigger (d : Document) (loader : Loader) (before : List Block) (b : Block)
    (t : Trigger) : Prop where
  type : b.type = "trigger"
  free : (triggersAfter d loader before).triggers.get? t.fullName = none
  entered : (triggersAfter d loader (before ++ [b])).triggers.get? t.fullName = some t

/-- A block is taken up at its turn after the blocks before it. -/
def Enters (d : Document) (loader : Loader) (before : List Block) (b : Block) : Prop :=
  (∃ p, EntersPipeline d loader before b p) ∨ ∃ t, EntersTrigger d loader before b t

/-- A block declares a pipeline and has no error of its own. -/
structure DeclaresPipeline (d : Document) (loader : Loader) (b : Block) (p : Pipeline) :
    Prop where
  type : b.type = "pipeline"
  undamaged : b.allDiagnostics = []
  decoded : Pipeline.ofBlock b (contextOf d loader) = .ok p

/-- A block declares a trigger and has no error of its own: whatever the trigger runs is in the
catalog. -/
structure DeclaresTrigger (d : Document) (loader : Loader) (b : Block) (t : Trigger) :
    Prop where
  type : b.type = "trigger"
  undamaged : b.allDiagnostics = []
  decoded : Trigger.ofBlock b (contextOf d loader) = .ok t
  known : ∀ name ∈ t.pipelineNames, (ofDocument d loader).pipelines.contains name = true

/-- What a catalog tells about its document. -/
structure Accounts (d : Document) (loader : Loader) (c : Catalog) : Prop where
  accounted : ∀ before b after, d.blocks = before ++ b :: after →
    Enters d loader before b ∨ Reported c.reports (resourceOf b)
  pipeline : ∀ name p, c.pipelines.get? name = some p ↔
    ∃ before b after, d.blocks = before ++ b :: after ∧ DeclaresPipeline d loader b p ∧
      p.name = name ∧ ∀ b' ∈ before, ∀ p', DeclaresPipeline d loader b' p' → p'.name ≠ name
  trigger : ∀ name t, c.triggers.get? name = some t ↔
    ∃ before b after, d.blocks = before ++ b :: after ∧ DeclaresTrigger d loader b t ∧
      t.fullName = name ∧ ∀ b' ∈ before, ∀ t', DeclaresTrigger d loader b' t' → t'.fullName ≠ name
  enteredPipeline : ∀ before b after p, d.blocks = before ++ b :: after →
    EntersPipeline d loader before b p →
      DeclaresPipeline d loader b p ∧ c.pipelines.get? p.name = some p
  enteredTrigger : ∀ before b after t, d.blocks = before ++ b :: after →
    EntersTrigger d loader before b t →
      DeclaresTrigger d loader b t ∧ c.triggers.get? t.fullName = some t
  complete : c.isComplete = true ↔ d.diagnostics = [] ∧
    ∀ before b after, d.blocks = before ++ b :: after → Enters d loader before b
  accepted : (∃ c', c.orReports = .ok c') ↔ c.isComplete = true
  /-- Whatever a trigger of the catalog is known to run is in the catalog. -/
  targets : ∀ name t, c.triggers.get? name = some t →
    (∀ target, t.pipelineName? = some target → c.pipelines.contains target = true) ∧
    ∀ q type capture target, t.spec = .query q → q.captures type = some capture →
      capture.pipelineName? = some target → c.pipelines.contains target = true

section
variable (h : d.Conforms)
include h

theorem undamaged_iff (hb : b ∈ d.blocks) :
    b.allDiagnostics.hasErrors = false ↔ b.allDiagnostics = [] := by
  constructor
  · intro accepted
    by_contra some
    rw [Diagnostics.hasErrors_of_forall (h.blocks b hb).isError some] at accepted
    cases accepted
  · intro none
    rw [none]
    rfl

theorem declares_pipelinePass_iff (hb : b ∈ d.blocks) :
    (pipelinePass (contextOf d loader)).Declares b p ↔ DeclaresPipeline d loader b p := by
  constructor
  · rintro ⟨type, decoded, -⟩
    obtain ⟨accepted, decoded⟩ := decode_eq_ok.1 decoded
    exact ⟨type, (undamaged_iff h hb).1 accepted, decoded⟩
  · rintro ⟨type, undamaged, decoded⟩
    exact ⟨type, decode_eq_ok.2 ⟨(undamaged_iff h hb).2 undamaged, decoded⟩, rfl⟩

theorem declares_triggerPass_iff (hb : b ∈ d.blocks) :
    (triggerPass (contextOf d loader) (pipelineState d loader d.blocks).entries).Declares b t ↔
      DeclaresTrigger d loader b t := by
  have known : (unknownPipelines ⟨(pipelineState d loader d.blocks).entries, [], []⟩ t
      b).hasErrors = false ↔
        ∀ name ∈ t.pipelineNames, (ofDocument d loader).pipelines.contains name = true := by
    rw [ofDocument_eq, triggersAfter_eq]
    exact hasErrors_unknownPipelines
  constructor
  · rintro ⟨type, decoded, accepted⟩
    obtain ⟨undamaged, decoded⟩ := decode_eq_ok.1 decoded
    rw [triggerPass, Diagnostics.hasErrors_append, Diagnostics.hasErrors_append] at accepted
    simp only [Bool.or_eq_false_iff] at accepted
    exact ⟨type, (undamaged_iff h hb).1 undamaged, decoded, known.1 accepted.1.2⟩
  · rintro ⟨type, undamaged, decoded, targets⟩
    refine ⟨type, decode_eq_ok.2 ⟨(undamaged_iff h hb).2 undamaged, decoded⟩, ?_⟩
    rw [triggerPass, Diagnostics.hasErrors_append, Diagnostics.hasErrors_append,
      (undamaged_iff h hb).2 undamaged, known.2 targets]
    rfl

end

theorem entersPipeline_iff (type : b.type = "pipeline") :
    EntersPipeline d loader before b p ↔ (pipelinePass (contextOf d loader)).Enters
      ⟨[], filed [] documentResource d.diagnostics⟩ before b p := by
  rw [(lawful_pipelinePass _).enters_iff type]
  constructor
  · rintro ⟨-, free, entered⟩
    rw [pipelinesAfter_eq] at free entered
    exact ⟨free, entered⟩
  · rintro ⟨free, entered⟩
    refine ⟨type, ?_, ?_⟩ <;> rw [pipelinesAfter_eq]
    · exact free
    · exact entered

theorem entersTrigger_iff (type : b.type = "trigger") :
    EntersTrigger d loader before b t ↔
      (triggerPass (contextOf d loader) (pipelineState d loader d.blocks).entries).Enters
        ⟨[], (pipelineState d loader d.blocks).reports⟩ before b t := by
  rw [(lawful_triggerPass _ _).enters_iff type]
  constructor
  · rintro ⟨-, free, entered⟩
    rw [triggersAfter_eq] at free entered
    exact ⟨free, entered⟩
  · rintro ⟨free, entered⟩
    refine ⟨type, ?_, ?_⟩ <;> rw [triggersAfter_eq]
    · exact free
    · exact entered

theorem clean_start (h : d.Conforms) :
    Clean (filed [] documentResource d.diagnostics) ↔ d.diagnostics = [] := by
  rw [clean_filed]
  constructor
  · rintro ⟨-, accepted⟩
    by_contra some
    rw [Diagnostics.hasErrors_of_forall h.errors some] at accepted
    cases accepted
  · intro none
    rw [none]
    exact ⟨fun _ ⟨_, hr, _⟩ => (nomatch hr), rfl⟩

theorem sorted_reports (d : Document) (loader : Loader) :
    (ofDocument d loader).reports.Sorted := by
  rw [ofDocument_eq, triggersAfter_eq]
  have pipelines : (pipelineState d loader d.blocks).reports.Sorted :=
    Pass.sorted_run (s := ⟨[], _⟩) (sorted_filed .nil) d.blocks
  exact Pass.sorted_run (s := ⟨[], _⟩) pipelines d.blocks

/-- What is reported on a pipeline is kept while the triggers are taken up. -/
theorem reported_of_pipelineState {resource : String}
    (h : Reported (pipelineState d loader d.blocks).reports resource) :
    Reported (triggerState d loader d.blocks).reports resource :=
  Pass.Reported.run (s := ⟨[], _⟩) h d.blocks

/-- A block stands at the root of a document as a pipeline or as a trigger. -/
theorem enters_or_reported (h : d.Conforms) (split : d.blocks = before ++ b :: after) :
    Enters d loader before b ∨ Reported (ofDocument d loader).reports (resourceOf b) := by
  rw [ofDocument_eq, triggersAfter_eq]
  rcases (h.blocks b (by rw [split]; simp)).root with ⟨type, -⟩ | ⟨type, -⟩
  · rcases (lawful_pipelinePass (contextOf d loader)).enters_or_reported type before after with
      ⟨p, entered⟩ | reported
    · exact .inl (.inl ⟨p, (entersPipeline_iff type).2 entered⟩)
    · rw [← split] at reported
      exact .inr (reported_of_pipelineState reported)
  · rcases (lawful_triggerPass (contextOf d loader)
      (pipelineState d loader d.blocks).entries).enters_or_reported type before after with
      ⟨t, entered⟩ | reported
    · exact .inl (.inr ⟨t, (entersTrigger_iff type).2 entered⟩)
    · rw [← split] at reported
      exact .inr reported

theorem isComplete_iff (h : d.Conforms) :
    (ofDocument d loader).isComplete = true ↔ d.diagnostics = [] ∧
      ∀ before b after, d.blocks = before ++ b :: after → Enters d loader before b := by
  rw [isComplete_iff_clean (sorted_reports d loader)]
  constructor
  · intro clean
    refine ⟨?_, fun before b after split => (enters_or_reported h split).resolve_right (clean _)⟩
    rw [ofDocument_eq, triggersAfter_eq] at clean
    exact (clean_start h).1 ((lawful_pipelinePass _).clean_run _ |>.1
      ((lawful_triggerPass _ _).clean_run _ |>.1 clean).1).1
  · rintro ⟨none, enters⟩
    rw [ofDocument_eq, triggersAfter_eq]
    refine ((lawful_triggerPass _ _).clean_run _).2 ⟨((lawful_pipelinePass _).clean_run _).2
      ⟨(clean_start h).2 none, fun before b after split type => ?_⟩,
      fun before b after split type => ?_⟩
    · rcases enters before b after split with ⟨p, entered⟩ | ⟨t, entered⟩
      · exact ⟨p, (entersPipeline_iff type).1 entered⟩
      · exact absurd (entered.type.symm.trans type) (show "trigger" ≠ "pipeline" by decide)
    · rcases enters before b after split with ⟨p, entered⟩ | ⟨t, entered⟩
      · exact absurd (entered.type.symm.trans type) (show "pipeline" ≠ "trigger" by decide)
      · exact ⟨t, (entersTrigger_iff type).1 entered⟩

theorem get?_pipelines_iff (h : d.Conforms) {name : String} :
    (ofDocument d loader).pipelines.get? name = some p ↔
      ∃ before b after, d.blocks = before ++ b :: after ∧ DeclaresPipeline d loader b p ∧
        p.name = name ∧ ∀ b' ∈ before, ∀ p', DeclaresPipeline d loader b' p' → p'.name ≠ name := by
  rw [ofDocument_eq, triggersAfter_eq]
  exact (lawful_pipelinePass _).get?_run_iff_of_forall rfl fun _ hb _ =>
    declares_pipelinePass_iff h hb

theorem get?_triggers_iff (h : d.Conforms) {name : String} :
    (ofDocument d loader).triggers.get? name = some t ↔
      ∃ before b after, d.blocks = before ++ b :: after ∧ DeclaresTrigger d loader b t ∧
        t.fullName = name ∧
          ∀ b' ∈ before, ∀ t', DeclaresTrigger d loader b' t' → t'.fullName ≠ name := by
  rw [ofDocument_eq, triggersAfter_eq]
  exact (lawful_triggerPass _ _).get?_run_iff_of_forall rfl fun _ hb _ =>
    declares_triggerPass_iff h hb

theorem declares_of_entersPipeline (h : d.Conforms) (split : d.blocks = before ++ b :: after)
    (entered : EntersPipeline d loader before b p) :
    DeclaresPipeline d loader b p ∧ (ofDocument d loader).pipelines.get? p.name = some p := by
  have type := entered.type
  have enters := (entersPipeline_iff type).1 entered
  refine ⟨(declares_pipelinePass_iff h (by rw [split]; simp)).1
    (((lawful_pipelinePass _).verdict_eq_ok_iff type).1 enters).1, ?_⟩
  rw [ofDocument_eq, triggersAfter_eq, pipelineState, split]
  exact (lawful_pipelinePass _).get?_of_enters type enters after

theorem declares_of_entersTrigger (h : d.Conforms) (split : d.blocks = before ++ b :: after)
    (entered : EntersTrigger d loader before b t) :
    DeclaresTrigger d loader b t ∧ (ofDocument d loader).triggers.get? t.fullName = some t := by
  have type := entered.type
  have enters := (entersTrigger_iff type).1 entered
  refine ⟨(declares_triggerPass_iff h (by rw [split]; simp)).1
    (((lawful_triggerPass _ _).verdict_eq_ok_iff type).1 enters).1, ?_⟩
  have stays := (lawful_triggerPass _ _).get?_of_enters type enters after
  rw [← split] at stays
  rw [ofDocument_eq, triggersAfter_eq]
  exact stays

theorem mem_captures {q : QuerySource} {type : CaptureType} {capture : Capture}
    (h : q.captures type = some capture) :
    (type, capture) ∈ (TriggerSpec.query q).captures := by
  have all : type ∈ (Keyword.all : List CaptureType) := by cases type <;> decide
  exact List.mem_filterMap.2 ⟨type, all, by rw [h]; rfl⟩

/-- The catalog of a text that can be decoded accounts for all its blocks. -/
theorem accounts_ofDocument {text : String} {file : Option String}
    (decoded : Document.decode text file = .ok d) (loader : Loader) :
    Accounts d loader (ofDocument d loader) := by
  have h := Document.conforms_of_decode decoded
  refine
    { accounted := fun _ _ _ split => enters_or_reported h split
      pipeline := fun _ _ => get?_pipelines_iff h
      trigger := fun _ _ => get?_triggers_iff h
      enteredPipeline := fun _ _ _ _ split => declares_of_entersPipeline h split
      enteredTrigger := fun _ _ _ _ split => declares_of_entersTrigger h split
      complete := isComplete_iff h
      accepted := ?_
      targets := fun name t found => ?_ }
  · unfold orReports
    split
    · rename_i complete
      exact ⟨fun _ => complete, fun _ => ⟨_, rfl⟩⟩
    · rename_i rejected
      exact ⟨fun ⟨_, ok⟩ => (nomatch ok), fun complete => absurd complete rejected⟩
  · obtain ⟨_, b, _, -, declared, -⟩ := (get?_triggers_iff h).1 found
    refine ⟨fun target named => declared.known target ?_,
      fun q type capture target spec captured named => declared.known target ?_⟩
    · exact List.mem_append_left _ (by rw [named]; exact List.mem_singleton.2 rfl)
    · refine List.mem_append_right _ (List.mem_filterMap.2 ⟨(type, capture), ?_, named⟩)
      rw [spec]
      exact mem_captures captured

/-- Two keys that are one label, and a trigger that runs the pipeline under it. -/
def sharedText : String :=
  "\x7bpipeline: \x7b1: \x7b\x7d, '1': \x7b\x7d\x7d, " ++
    "trigger: \x7bhttp: \x7bt: \x7bpipeline: '1'\x7d\x7d\x7d\x7d"

theorem decode_sharedText :
    ∃ d, Document.decode sharedText none = .ok d ∧
      d.blocks.map resourceOf = ["pipeline.1", "pipeline.1", "trigger.http.t"] ∧
      (ofDocument d {}).pipelines.keys = ["1"] ∧ (ofDocument d {}).triggers.keys = ["http.t"] ∧
      (ofDocument d {}).reports.keys = ["pipeline.1"] := by
  decide +kernel

/-- The second pipeline is reported under the resource of the first, and the trigger is taken up. -/
theorem accounts_ofDocument_shared :
    ∃ d, Document.decode sharedText none = .ok d ∧
      (ofDocument d {}).reports.keys = ["pipeline.1"] ∧ Accounts d {} (ofDocument d {}) := by
  obtain ⟨d, decoded, -, -, -, reports⟩ := decode_sharedText
  exact ⟨d, decoded, reports, accounts_ofDocument decoded {}⟩

end PipelineResolution.Catalog
