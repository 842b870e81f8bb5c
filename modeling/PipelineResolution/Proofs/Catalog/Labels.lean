import PipelineResolution.Catalog
import PipelineResolution.Proofs.Dict
import PipelineResolution.Proofs.Step.Labels

/-!
# Labels of the resources of a document

The blocks of a document have the labels of their shapes. The decoders of pipelines and triggers ask
for labels all the same, and what is said here is that they never do so for a block of a document:
none of the reports of a catalog, whatever text and configuration it is made of, is of that kind.
-/
namespace PipelineResolution
open Diagnostic (labelSummaries)

section
variable {b : Block} {ctx : ResolutionContext}

namespace Param

theorem asksNoLabel_setAttribute (p : Param) (a : Attribute) :
    (setAttribute ctx p a).2.AsksNoLabel := by
  unfold setAttribute
  split
  · unfold store
    split
    · split <;> simp [labelSummaries]
    all_goals simp [mismatch, labelSummaries]
  · simp [labelSummaries]
  · rename_i failed
    exact a.expression.sparesLabels_resolve a.location ctx _ failed

theorem sparesLabels_ofBlock (labels : b.labels.length = 1) : SparesLabels (ofBlock b ctx) := by
  obtain ⟨name, hname⟩ := List.length_eq_one_iff.1 labels
  unfold ofBlock
  rw [show b.label? 0 = some name by rw [Block.label?, hname]; rfl]
  refine Diagnostics.AsksNoLabel.orValue ?_ _
  simp only [Diagnostics.asksNoLabel_append]
  refine ⟨⟨b.asksNoLabel_unsupportedAttributes _, ?_⟩, ?_⟩
  · exact Diagnostics.asksNoLabel_gather (fun p a _ => p.asksNoLabel_setAttribute a) _
  · unfold checkDefault
    split
    · split <;> simp [labelSummaries]
    · exact Diagnostics.asksNoLabel_nil

end Param

theorem Diagnostic.duplicate_not_mem (what : String) : "Duplicate " ++ what ∉ labelSummaries := by
  intro h
  simp only [labelSummaries, List.mem_cons, List.not_mem_nil, or_false] at h
  rcases h with h | h | h | h | h | h <;> simpa using congrArg String.toList h

namespace Pipeline

theorem asksNoLabel_setAttribute (p : Pipeline) (a : Attribute) :
    (setAttribute ctx p a).2.AsksNoLabel := by
  have text : SparesLabels (staticText a ctx) := by
    unfold staticText
    split
    · exact sparesLabels_ok
    · simp [labelSummaries]
    · simp [labelSummaries]
    · rename_i failed
      exact sparesLabels_error.2 (a.expression.sparesLabels_resolve a.location ctx _ failed)
  have reports {ds : Diagnostics} (failed : staticText a ctx = .error ds) : ds.AsksNoLabel :=
    text ds failed
  unfold setAttribute
  dsimp only
  split
  · split
    · exact Diagnostics.asksNoLabel_nil
    · exact reports ‹_›
  · split
    · exact Diagnostics.asksNoLabel_nil
    · exact reports ‹_›
  · exact Diagnostics.asksNoLabel_nil

theorem asksNoLabel_declare {α : Type} (p : Pipeline) (what : String) (b : Block)
    {decoded : Except Diagnostics α} (h : SparesLabels decoded) (name : α → String)
    (taken : String → Bool) (add : α → Pipeline) :
    (p.declare what b decoded name taken add).2.AsksNoLabel := by
  unfold declare
  split
  · split
    · simpa [duplicate] using Diagnostic.duplicate_not_mem what
    · exact Diagnostics.asksNoLabel_nil
  · exact h _ rfl

theorem asksNoLabel_addBlock (p : Pipeline) (conforms : b.Conforms "pipeline") :
    (addBlock ctx p b).2.AsksNoLabel := by
  unfold addBlock
  split
  · rename_i type
    have opened : Shape.of? "pipeline" b.type = some (.labeled 1) := by rw [type]; rfl
    exact p.asksNoLabel_declare _ _ (Param.sparesLabels_ofBlock (conforms.length_labels opened))
      _ _ _
  · rename_i type
    have opened : Shape.of? "pipeline" b.type = some (.labeled 2) := by rw [type]; rfl
    refine p.asksNoLabel_declare _ _ (Step.sparesLabels_ofBlock (conforms.length_labels opened)
      (fun i hi => ?_) _ _) _ _ _
    exact type ▸ conforms.inner i hi
  · rename_i type
    have opened : Shape.of? "pipeline" b.type = some (.labeled 1) := by rw [type]; rfl
    exact p.asksNoLabel_declare _ _
      (NamedOutput.sparesLabels_ofBlock (conforms.length_labels opened) _) _ _ _
  · simp

theorem asksNoLabel_checkDependencies (p : Pipeline) : p.checkDependencies.AsksNoLabel := by
  have unknown (owner : String) (l : Location) (d : DependencySet) :
      (p.unknownSteps owner l d).AsksNoLabel :=
    Diagnostics.asksNoLabel_map.2 fun target _ => by simp [labelSummaries]
  exact Diagnostics.asksNoLabel_append.2 ⟨Diagnostics.asksNoLabel_flatMap.2 fun s _ => unknown _ _ _,
    Diagnostics.asksNoLabel_flatMap.2 fun o _ => unknown _ _ _⟩

theorem asksNoLabel_checkCycle (p : Pipeline) : p.checkCycle.AsksNoLabel := by
  unfold checkCycle
  split <;> simp [labelSummaries]

theorem sparesLabels_ofBlock (labels : b.labels.length = 1)
    (inner : ∀ i ∈ b.blocks, i.Conforms "pipeline") : SparesLabels (ofBlock b ctx) := by
  obtain ⟨name, hname⟩ := List.length_eq_one_iff.1 labels
  unfold ofBlock
  rw [show b.label? 0 = some name by rw [Block.label?, hname]; rfl]
  dsimp only
  have described (p : Pipeline) :
      (Diagnostics.gather (setAttribute ctx) p b.attributes).2.AsksNoLabel :=
    Diagnostics.asksNoLabel_gather (fun p a _ => asksNoLabel_setAttribute p a) p
  have declared (p : Pipeline) : (Diagnostics.gather (addBlock ctx) p b.blocks).2.AsksNoLabel :=
    Diagnostics.asksNoLabel_gather (fun p i hi => asksNoLabel_addBlock p (inner i hi)) p
  have all := fun p q => Diagnostics.asksNoLabel_append.2 ⟨Diagnostics.asksNoLabel_append.2
    ⟨b.asksNoLabel_unsupportedAttributes ["title", "description"], described p⟩, declared q⟩
  split
  · exact sparesLabels_error.2 (all _ _)
  · refine Diagnostics.AsksNoLabel.orValue ?_ _
    exact Diagnostics.asksNoLabel_append.2 ⟨Diagnostics.asksNoLabel_append.2
      ⟨all _ _, asksNoLabel_checkDependencies _⟩, asksNoLabel_checkCycle _⟩

end Pipeline

namespace Settled

theorem asksNoLabel_add {refine : Attribute → Value → Except Diagnostic Value}
    (h : ∀ a v d, refine a v = .error d → ¬d.AsksLabel) (s : Settled) (a : Attribute) :
    (s.add ctx refine a).2.AsksNoLabel := by
  unfold add
  dsimp only
  split
  · split
    · exact Diagnostics.asksNoLabel_nil
    · rename_i refused
      simpa using h _ _ _ refused
  · exact Diagnostics.asksNoLabel_nil
  · rename_i failed
    exact a.expression.sparesLabels_resolve a.location ctx _ failed

theorem asksNoLabel_addStatic (s : Settled) (a : Attribute) : (s.addStatic ctx a).2.AsksNoLabel := by
  unfold addStatic
  split
  · exact Diagnostics.asksNoLabel_nil
  · simp [labelSummaries]
  · rename_i failed
    exact a.expression.sparesLabels_resolve a.location ctx _ failed

end Settled

namespace Capture

theorem not_asksLabel_refine (a : Attribute) (v : Value) (d : Diagnostic)
    (h : refine a v = .error d) : ¬d.AsksLabel := by
  unfold refine at h
  split at h
  · split at h <;> cases h
    simp [Diagnostic.invalidPipeline, labelSummaries]
  · split at h <;> cases h
    exact TypeMismatch.not_asksLabel _ _

theorem asksNoLabel_ofBody (type : CaptureType) (b : Block) : (ofBody type b ctx).2.2.AsksNoLabel := by
  refine Diagnostics.asksNoLabel_append.2 ⟨Diagnostics.asksNoLabel_append.2
    ⟨Diagnostics.asksNoLabel_append.2 ⟨b.asksNoLabel_unsupportedAttributes _,
      Block.asksNoLabel_unsupportedBlocks b.blocks _⟩, ?_⟩, ?_⟩
  · exact Diagnostics.asksNoLabel_gather
      (fun s a _ => s.asksNoLabel_add not_asksLabel_refine a) _
  · split <;> simp

theorem asksNoLabel_add (labels : b.labels.length = 1) (state : Captures × DependencySet) :
    (add ctx state b).2.AsksNoLabel := by
  obtain ⟨word, hword⟩ := List.length_eq_one_iff.1 labels
  unfold add
  rw [show b.label? 0 = some word by rw [Block.label?, hword]; rfl]
  dsimp only [Option.map_some]
  cases Keyword.parse CaptureType word with
  | error e => simp [labelSummaries]
  | ok type =>
    dsimp only
    split
    · simp [labelSummaries]
    · exact asksNoLabel_ofBody type b

theorem asksNoLabel_ofBlocks (inner : ∀ i ∈ b.blocks, i.Conforms "trigger") :
    (ofBlocks b ctx).2.AsksNoLabel := by
  refine Diagnostics.asksNoLabel_gather (fun state i hi => ?_) _
  obtain ⟨hi, type⟩ := List.mem_filter.1 hi
  have opened : Shape.of? "trigger" i.type = some (.labeled 1) := by rw [beq_iff_eq.1 type]; rfl
  exact asksNoLabel_add ((inner i hi).length_labels opened) state

end Capture

namespace Trigger

theorem asksNoLabel_textOf (s : Settled) (name : String) : (textOf b s name).2.AsksNoLabel := by
  unfold textOf
  split <;> simp

theorem asksNoLabel_lacking (name : String) : (lacking b name).AsksNoLabel := by
  unfold lacking
  split <;> simp

@[simp] theorem asksLabel_broken {name summary detail : String} :
    (broken b name summary detail).AsksLabel ↔ summary ∈ labelSummaries := Iff.rfl

theorem asksNoLabel_scheduleOf (s : Settled) : (scheduleOf b s).2.AsksNoLabel := by
  have text := asksNoLabel_textOf (b := b) s "schedule"
  unfold scheduleOf
  split
  · rename_i found
    rw [found] at text
    exact Diagnostics.asksNoLabel_append.2 ⟨text, asksNoLabel_lacking _⟩
  · rename_i found
    rw [found] at text
    split
    · exact text
    · exact Diagnostics.asksNoLabel_append.2 ⟨text, by simp [labelSummaries]⟩

theorem asksNoLabel_modeOf (s : Settled) : (modeOf b s).2.AsksNoLabel := by
  have text := asksNoLabel_textOf (b := b) s "execution_mode"
  unfold modeOf
  split
  · rename_i found
    rwa [found] at text
  · rename_i found
    rw [found] at text
    split
    · exact text
    · exact Diagnostics.asksNoLabel_append.2 ⟨text, by simp [labelSummaries]⟩

theorem asksNoLabel_specOf (inner : ∀ i ∈ b.blocks, i.Conforms "trigger") (kind : TriggerKind)
    (s : Settled) : (specOf kind b s ctx).2.2.AsksNoLabel := by
  have unsupported := Block.asksNoLabel_unsupportedBlocks b.blocks "trigger"
  cases kind with
  | schedule => exact Diagnostics.asksNoLabel_append.2 ⟨asksNoLabel_scheduleOf s, unsupported⟩
  | http => exact Diagnostics.asksNoLabel_append.2 ⟨unsupported, asksNoLabel_modeOf s⟩
  | query =>
    unfold specOf
    simp only [Diagnostics.asksNoLabel_append]
    refine ⟨⟨⟨⟨⟨⟨⟨⟨asksNoLabel_scheduleOf s, Block.asksNoLabel_unsupportedBlocks _ _⟩,
      asksNoLabel_textOf s _⟩, ?_⟩, asksNoLabel_textOf s _⟩, asksNoLabel_textOf s _⟩,
      asksNoLabel_lacking _⟩, asksNoLabel_lacking _⟩, Capture.asksNoLabel_ofBlocks inner⟩
    split <;> simp [labelSummaries]

theorem asksNoLabel_checkPipeline (kind : TriggerKind) (s : Settled) (h : TriggerHeader) :
    (checkPipeline kind b s h).AsksNoLabel := by
  unfold checkPipeline
  split
  · split <;> simp
  · split <;> simp [Diagnostic.invalidPipeline, labelSummaries]

theorem sparesLabels_ofBlock (labels : b.labels.length = 2)
    (inner : ∀ i ∈ b.blocks, i.Conforms "trigger") : SparesLabels (ofBlock b ctx) := by
  obtain ⟨kind, name, both⟩ := List.length_eq_two.1 labels
  unfold ofBlock
  rw [both]
  dsimp only
  split
  · exact sparesLabels_error.2 (by simp [labelSummaries])
  · unfold ofKind
    refine Diagnostics.AsksNoLabel.orValue ?_ _
    simp only [Diagnostics.asksNoLabel_append]
    refine ⟨⟨⟨⟨b.asksNoLabel_unsupportedAttributes _, ?_⟩, Field.asksNoLabel_fill _ _ _ _ _⟩,
      asksNoLabel_checkPipeline _ _ _⟩, asksNoLabel_specOf inner _ _⟩
    refine Diagnostics.asksNoLabel_gather (fun s a _ => ?_) _
    unfold settle
    split
    · exact s.asksNoLabel_addStatic a
    · exact s.asksNoLabel_add (fun _ _ _ h => by cases h) a

end Trigger

end

namespace Catalog
variable {d : Document} {b : Block} {ctx : ResolutionContext} {c : Catalog}

/-- No report of the catalog asks for a label. -/
def SparesLabels (c : Catalog) : Prop := ∀ entry ∈ c.reports, entry.2.AsksNoLabel

theorem SparesLabels.report (h : c.SparesLabels) (resource : String) {ds : Diagnostics}
    (spared : ds.AsksNoLabel) : (c.report resource ds).SparesLabels := by
  unfold Catalog.report
  split
  · exact h
  · intro entry he
    rcases Dict.mem_insert he with rfl | he
    · refine Diagnostics.asksNoLabel_append.2 ⟨?_, spared⟩
      cases found : c.reports.get? resource with
      | none => exact Diagnostics.asksNoLabel_nil
      | some before => exact h _ (Dict.mem_of_get? found)
    · exact h entry he

theorem sparesLabels_decode {α : Type} {decoded : Except Diagnostics α}
    (own : b.allDiagnostics.AsksNoLabel) (h : PipelineResolution.SparesLabels decoded) :
    PipelineResolution.SparesLabels (decode b decoded) := by
  unfold decode
  split
  · exact sparesLabels_error.2 own
  · exact h

theorem SparesLabels.addPipeline (h : c.SparesLabels) (own : b.allDiagnostics.AsksNoLabel)
    (decoded : PipelineResolution.SparesLabels (Pipeline.ofBlock b ctx)) :
    (addPipeline ctx c b).SparesLabels := by
  unfold Catalog.addPipeline
  split
  · rename_i failed
    exact h.report _ (sparesLabels_decode own decoded _ failed)
  · split
    · exact h.report _ (by simpa [duplicate] using Diagnostic.duplicate_not_mem "pipeline")
    · exact h

theorem SparesLabels.addTrigger (h : c.SparesLabels) (own : b.allDiagnostics.AsksNoLabel)
    (decoded : PipelineResolution.SparesLabels (Trigger.ofBlock b ctx)) :
    (addTrigger ctx c b).SparesLabels := by
  unfold Catalog.addTrigger
  split
  · rename_i failed
    exact h.report _ (sparesLabels_decode own decoded _ failed)
  · rename_i t _
    have more : Diagnostics.AsksNoLabel (b.allDiagnostics ++ c.unknownPipelines t b
        ++ if c.triggers.contains t.fullName then [duplicate "trigger" t.fullName b] else []) := by
      refine Diagnostics.asksNoLabel_append.2 ⟨Diagnostics.asksNoLabel_append.2 ⟨own, ?_⟩, ?_⟩
      · exact Diagnostics.asksNoLabel_map.2 fun name _ => by simp [labelSummaries]
      · split
        · simpa [duplicate] using Diagnostic.duplicate_not_mem "trigger"
        · exact Diagnostics.asksNoLabel_nil
    dsimp only
    generalize b.allDiagnostics ++ c.unknownPipelines t b ++ _ = ds at more ⊢
    split
    · exact h.report _ more
    · exact h

/-- In any context, a block at the root of a document is decoded without a label asked for. -/
theorem sparesLabels_ofBlock (h : b.Conforms "") (ctx : ResolutionContext) :
    (b.type = "pipeline" → PipelineResolution.SparesLabels (Pipeline.ofBlock b ctx)) ∧
      (b.type = "trigger" → PipelineResolution.SparesLabels (Trigger.ofBlock b ctx)) := by
  constructor
  · intro type
    have opened : Shape.of? "" b.type = some (.labeled 1) := by rw [type]; rfl
    exact Pipeline.sparesLabels_ofBlock (h.length_labels opened) (type ▸ h.inner)
  · intro type
    have opened : Shape.of? "" b.type = some (.labeled 2) := by rw [type]; rfl
    exact Trigger.sparesLabels_ofBlock (h.length_labels opened) (type ▸ h.inner)

theorem sparesLabels_ofDocument (conforms : d.Conforms) (spared : d.SparesLabels)
    (loader : Loader) : (ofDocument d loader).SparesLabels := by
  unfold ofDocument
  dsimp only
  refine List.foldlRecOn _ _ (List.foldlRecOn _ _ ?_ fun c h b hb => ?_) fun c h b hb => ?_
  · exact SparesLabels.report (c := empty) (fun _ h => nomatch h) _ spared.diagnostics
  · obtain ⟨hb, type⟩ := List.mem_filter.1 hb
    exact h.addPipeline (spared.blocks b hb)
      ((sparesLabels_ofBlock (conforms.blocks b hb) _).1 (beq_iff_eq.1 type))
  · obtain ⟨hb, type⟩ := List.mem_filter.1 hb
    exact h.addTrigger (spared.blocks b hb)
      ((sparesLabels_ofBlock (conforms.blocks b hb) _).2 (beq_iff_eq.1 type))

/-- Whatever text a document is decoded from, its blocks have the labels of their shapes, and none
of the reports on what it declares asks for a label. -/
theorem labels_of_decode {text : String} {file : Option String} {d : Document}
    (decoded : Document.decode text file = .ok d) :
    (∀ b ∈ d.blocks, b.Conforms "" ∧
      (b.type = "pipeline" ∧ b.labels.length = 1 ∨ b.type = "trigger" ∧ b.labels.length = 2)) ∧
    (∀ b ∈ d.blocks, ∀ ctx,
      (b.type = "pipeline" → PipelineResolution.SparesLabels (Pipeline.ofBlock b ctx)) ∧
      (b.type = "trigger" → PipelineResolution.SparesLabels (Trigger.ofBlock b ctx))) ∧
    ∀ loader, (ofDocument d loader).SparesLabels := by
  have conforms := Document.conforms_of_decode decoded
  have spared := Document.sparesLabels_of_decode decoded
  exact ⟨fun b hb => ⟨conforms.blocks b hb, (conforms.blocks b hb).root⟩,
    fun b hb => sparesLabels_ofBlock (conforms.blocks b hb),
    sparesLabels_ofDocument conforms spared⟩

/-- A step that is given its kind but no name. -/
def namelessText : String := "\x7bpipeline: \x7bp: \x7bstep: \x7bsleep: 1\x7d\x7d\x7d\x7d"

theorem decode_namelessText :
    ∃ d, Document.decode namelessText none = .ok d ∧ d.blocks.map resourceOf = ["pipeline.p"] ∧
      (ofDocument d {}).allReports.map (·.summary) = ["Missing block label"] := by
  decide +kernel

/-- The mapping is reported, and no block that lacks a label. -/
theorem labels_of_decode_nameless :
    ∃ d, Document.decode namelessText none = .ok d ∧
      (ofDocument d {}).allReports.map (·.summary) = ["Missing block label"] ∧
      (∀ b ∈ d.blocks, b.Conforms "") ∧ (ofDocument d {}).SparesLabels := by
  obtain ⟨d, decoded, -, reports⟩ := decode_namelessText
  obtain ⟨conforms, -, spared⟩ := labels_of_decode decoded
  exact ⟨d, decoded, reports, fun b hb => (conforms b hb).1, spared {}⟩

end Catalog
end PipelineResolution
