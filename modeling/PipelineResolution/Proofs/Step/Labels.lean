import Mathlib.Data.List.Basic
import PipelineResolution.Proofs.Document.Labels
import PipelineResolution.Proofs.Expression.Stops
import PipelineResolution.Proofs.Resolution.Deferral
import PipelineResolution.Step.Basic

/-!
# Labels of the blocks of a step

Decoding a step asks only for labels that the shape of its block gives, so it asks for none when the
block and its outputs stand where a document has them.
-/
namespace PipelineResolution
open Diagnostic (labelSummaries)

/-- An outcome that asks for no label. -/
def Outcome.SparesLabels {α : Type} (o : Outcome α) : Prop :=
  ∀ ds, o = .failed ds → ds.AsksNoLabel

section
variable {α β : Type} {ds : Diagnostics}

@[simp] theorem Outcome.sparesLabels_resolved {a : α} : (Outcome.resolved a).SparesLabels :=
  fun _ h => nomatch h

@[simp] theorem Outcome.sparesLabels_deferred : (Outcome.deferred (α := α)).SparesLabels :=
  fun _ h => nomatch h

@[simp] theorem Outcome.sparesLabels_failed :
    (Outcome.failed (α := α) ds).SparesLabels ↔ ds.AsksNoLabel :=
  ⟨fun h => h ds rfl, fun h _ e => by cases e; exact h⟩

theorem Resolution.sparesLabels_refine {r : Resolution α} {f : α → Except Diagnostics β}
    (h : r.outcome.SparesLabels) (hf : ∀ a, SparesLabels (f a)) :
    (r.refine f).outcome.SparesLabels := by
  unfold Resolution.refine
  split
  · split
    · exact Outcome.sparesLabels_resolved
    · rename_i failed
      exact Outcome.sparesLabels_failed.2 (hf _ _ failed)
  · exact Outcome.sparesLabels_deferred
  · rename_i failed
    exact Outcome.sparesLabels_failed.2 (h _ failed)

end

section
variable {ctx : ResolutionContext} {location : Location}

theorem EvalError.not_asksLabel (err : EvalError) (more : String) :
    ¬(err.toDiagnostic more).AsksLabel := by
  cases err <;> simp [toDiagnostic, Diagnostic.unknownVariable, Diagnostic.AsksLabel,
    Diagnostic.error, labelSummaries]

theorem Expression.asksNoLabel_evaluate {e : Expression} {env : Environment} {w : Wording}
    {ds : Diagnostics} (h : e.evaluateWith env w = .error ds) : ds.AsksNoLabel := by
  rw [eq_of_evaluate h]
  exact Diagnostics.asksNoLabel_map.2 fun stop _ => stop.error.not_asksLabel stop.more

theorem Expression.not_asksLabel_malformed {e : Expression} {name : String} {d : Diagnostic}
    (h : e.malformed? name = some d) : ¬d.AsksLabel := by
  unfold malformed? at h
  split at h
  · subst name
    obtain ⟨r, -, rfl⟩ := Option.map_eq_some_iff.1 h
    simp [malformedReference, Diagnostic.AsksLabel, Diagnostic.error, labelSummaries]
  · split at h
    · subst name
      obtain ⟨r, -, rfl⟩ := Option.map_eq_some_iff.1 h
      simp [malformedReference, Diagnostic.AsksLabel, Diagnostic.error, labelSummaries]
    · cases h

theorem asksNoLabel_classifyAll (ds : Diagnostics) (e : Expression) (ctx : ResolutionContext) :
    (classifyAll ds e ctx).extra.AsksNoLabel := by
  intro d hd
  rw [classifyAll_distinct] at hd
  obtain ⟨d', -, report⟩ := List.mem_filterMap.1 hd
  unfold classify at report
  split at report
  · rw [Expression.report?_classifyRoot] at report
    exact Expression.not_asksLabel_malformed report
  · cases report

theorem Expression.sparesLabels_resolve (e : Expression) (location : Location)
    (ctx : ResolutionContext) : (e.resolve location ctx).outcome.SparesLabels := by
  unfold resolve
  split
  · split
    · exact Outcome.sparesLabels_deferred
    · exact Outcome.sparesLabels_resolved
  · rename_i stopped
    dsimp only
    split
    · exact Outcome.sparesLabels_deferred
    · refine Outcome.sparesLabels_failed.2 (Diagnostics.asksNoLabel_append.2 ⟨?_, ?_⟩)
      · exact Diagnostics.asksNoLabel_orAbout.2 (asksNoLabel_evaluate stopped)
      · exact Diagnostics.asksNoLabel_orAbout.2 (asksNoLabel_classifyAll _ e ctx)

theorem Block.sparesLabels_resolveBody (b : Block) (ctx : ResolutionContext) :
    (b.resolveBody ctx).outcome.SparesLabels := by
  suffices h : ∀ (as : List Attribute) (p : Progress), p.diagnostics.AsksNoLabel →
      (as.foldl (fun p a => p.add a.name (a.resolve ctx)) p).diagnostics.AsksNoLabel by
    unfold resolveBody
    dsimp only
    split
    · exact Outcome.sparesLabels_failed.2 (h _ _ Diagnostics.asksNoLabel_nil)
    · split
      · exact Outcome.sparesLabels_deferred
      · exact Outcome.sparesLabels_resolved
  intro as
  induction as with
  | nil => exact fun _ h => h
  | cons a as ih =>
    refine fun p h => ih _ ?_
    unfold Progress.add
    dsimp only
    split
    · exact h
    · exact h
    · rename_i failed
      have spared := Expression.sparesLabels_resolve a.expression a.location ctx
      exact Diagnostics.asksNoLabel_append.2 ⟨h, spared _ failed⟩

end

namespace Block
variable {name parent type : String} {a : Attribute}

@[simp] theorem not_asksLabel_unsupportedAttribute : ¬(unsupportedAttribute a type).AsksLabel := by
  simp [unsupportedAttribute, Diagnostic.AsksLabel, Diagnostic.error, labelSummaries]

@[simp] theorem not_asksLabel_missingArgument (b : Block) : ¬(b.missingArgument name).AsksLabel := by
  simp [missingArgument, labelSummaries]

@[simp] theorem not_asksLabel_unsupportedBlock (b : Block) :
    ¬(b.unsupportedBlock parent).AsksLabel := by
  simp [unsupportedBlock, labelSummaries]

theorem asksNoLabel_unsupportedAttributes (b : Block) (allowed : List String) :
    (b.unsupportedAttributes allowed).AsksNoLabel :=
  Diagnostics.asksNoLabel_map.2 fun _ _ => not_asksLabel_unsupportedAttribute

theorem asksNoLabel_unsupportedBlocks (bs : List Block) (parent : String) :
    Diagnostics.AsksNoLabel (bs.map (·.unsupportedBlock parent)) :=
  Diagnostics.asksNoLabel_map.2 fun b _ => b.not_asksLabel_unsupportedBlock

end Block

@[simp] theorem TypeMismatch.not_asksLabel (m : TypeMismatch) (l : Location) :
    ¬(m.toDiagnostic l).AsksLabel := by
  simp [toDiagnostic, labelSummaries]

theorem Field.asksNoLabel_fill {P : Type} (fields : List (Field P)) (nullable : List String)
    (location : Location) (body : Dict Value) (p : P) :
    (fill fields nullable location body p).2.AsksNoLabel := by
  unfold fill
  refine List.foldlRecOn body _ (motive := fun state : P × Diagnostics => state.2.AsksNoLabel)
    Diagnostics.asksNoLabel_nil fun state h entry _ => ?_
  dsimp only
  split
  · exact h
  · split
    · exact h
    · simpa using h

theorem RetryPolicy.asksNoLabel_check (p : RetryPolicy) (l : Location) :
    (p.check l).AsksNoLabel := by
  have broken (name detail : String) : ¬(broken l name detail).AsksLabel := by
    simp [RetryPolicy.broken, labelSummaries]
  unfold check
  simp only [Diagnostics.asksNoLabel_append]
  refine ⟨⟨⟨⟨?_, ?_⟩, ?_⟩, ?_⟩, ?_⟩
  all_goals split <;> simp [broken]

theorem RetryPolicy.sparesLabels_ofBlock (b : Block) (ctx : ResolutionContext) :
    (ofBlock b ctx).outcome.SparesLabels := by
  unfold ofBlock
  dsimp only
  split
  · exact Outcome.sparesLabels_failed.2 (b.asksNoLabel_unsupportedAttributes _)
  · refine Resolution.sparesLabels_refine (b.sparesLabels_resolveBody _) fun values => ?_
    refine Diagnostics.AsksNoLabel.orValue ?_ _
    exact Diagnostics.asksNoLabel_append.2
      ⟨Field.asksNoLabel_fill _ _ _ _ _, asksNoLabel_check _ b.location⟩

theorem FailurePolicy.sparesLabels_ofBlock (b : Block) (ctx : ResolutionContext) :
    (ofBlock b ctx).outcome.SparesLabels := by
  unfold ofBlock
  dsimp only
  split
  · exact Outcome.sparesLabels_failed.2 (b.asksNoLabel_unsupportedAttributes _)
  · refine Resolution.sparesLabels_refine (b.sparesLabels_resolveBody _) fun values => ?_
    refine Diagnostics.AsksNoLabel.orValue (Diagnostics.asksNoLabel_append.2
      ⟨Field.asksNoLabel_fill _ _ _ _ _, ?_⟩) _
    split <;> simp [labelSummaries]

theorem Throw.sparesLabels_ofBlock (b : Block) (ctx : ResolutionContext) :
    SparesLabels (ofBlock b ctx) := by
  have own (allowed : List String) : Diagnostics.AsksNoLabel (b.unsupportedAttributes allowed
      ++ if (b.attribute? "if").isNone then [b.missingArgument "if"] else []) := by
    refine Diagnostics.asksNoLabel_append.2 ⟨b.asksNoLabel_unsupportedAttributes _, ?_⟩
    split <;> simp
  unfold ofBlock
  dsimp only
  generalize reports : b.unsupportedAttributes _ ++ _ = ds
  split
  · exact sparesLabels_error.2 (reports ▸ own _)
  · split
    · exact (Diagnostics.AsksNoLabel.orValue (Field.asksNoLabel_fill _ _ _ _ _) _).map _
    · exact sparesLabels_ok
    · rename_i failed
      exact sparesLabels_error.2 (b.sparesLabels_resolveBody _ _ failed)

theorem Loop.asksNoLabel_draft (kind : StepKind) (as : List Attribute) (d : Draft)
    (h : d.diagnostics.AsksNoLabel) : (as.foldl (Draft.add kind) d).diagnostics.AsksNoLabel := by
  induction as generalizing d with
  | nil => exact h
  | cons a as ih =>
    refine ih _ ?_
    unfold Draft.add
    split
    · exact h
    · split
      · exact h
      · simpa using h

theorem Loop.sparesLabels_ofBlock (b : Block) (kind : StepKind) (ctx : ResolutionContext) :
    SparesLabels (ofBlock b kind ctx) := by
  have draft := asksNoLabel_draft kind b.attributes ⟨none, [], []⟩
    Diagnostics.asksNoLabel_nil
  unfold ofBlock
  dsimp only
  split
  · exact sparesLabels_error.2 (Diagnostics.asksNoLabel_append.2 ⟨draft, by simp⟩)
  · split
    · exact sparesLabels_error.2 draft
    · split
      · exact sparesLabels_error.2 (by simp [labelSummaries])
      · exact sparesLabels_ok
      · rename_i failed
        exact sparesLabels_error.2 (b.sparesLabels_resolveBody _ _ failed)

/-- An output is asked for a label only when it has none. -/
theorem NamedOutput.sparesLabels_ofBlock {b : Block} (labels : b.labels.length = 1)
    (ctx : ResolutionContext) : SparesLabels (ofBlock b ctx) := by
  have described : (describe b ctx).2.AsksNoLabel := by
    unfold describe
    split
    · exact Diagnostics.asksNoLabel_nil
    · rename_i a _
      split
      · exact Diagnostics.asksNoLabel_nil
      · simp [labelSummaries]
      · simp [labelSummaries]
      · rename_i failed
        exact a.expression.sparesLabels_resolve a.location ctx _ failed
  have content : SparesLabels (contentOf b ctx) := by
    unfold contentOf
    split
    · exact sparesLabels_error.2 (by simp)
    · rename_i a _
      dsimp only
      split
      · exact sparesLabels_ok
      · exact sparesLabels_ok
      · rename_i failed
        exact sparesLabels_error.2 (a.expression.sparesLabels_resolve a.location ctx _ failed)
  obtain ⟨name, hname⟩ := List.length_eq_one_iff.1 labels
  have label : b.label? 0 = some name := by rw [Block.label?, hname]; rfl
  have first := Diagnostics.asksNoLabel_append.2
    ⟨b.asksNoLabel_unsupportedAttributes ["description", "value"], described⟩
  unfold ofBlock
  rw [label]
  dsimp only
  cases found : contentOf b ctx with
  | error more => exact sparesLabels_error.2 (Diagnostics.asksNoLabel_append.2 ⟨first, content _ found⟩)
  | ok known => exact first.orValue _

@[simp] theorem Payload.asksLabel_broken {l : Location} {name summary detail : String} :
    (broken l name summary detail).AsksLabel ↔ summary ∈ labelSummaries := Iff.rfl

section
variable {l : Location}

theorem HttpRequest.asksNoLabel_check (p : HttpRequest) : (check p l).AsksNoLabel := by
  refine Diagnostics.asksNoLabel_append.2 ⟨?_, ?_⟩
  · split
    · split <;> simp [labelSummaries]
    · exact Diagnostics.asksNoLabel_nil
  · split
    · split <;> simp [labelSummaries]
    · exact Diagnostics.asksNoLabel_nil

theorem Sleep.asksNoLabel_check (p : Sleep) : (Payload.check p l).AsksNoLabel := by
  dsimp only [Payload.check]
  split <;> simp [labelSummaries]

theorem Email.asksNoLabel_check (p : Email) : (check p l).AsksNoLabel := by
  refine Diagnostics.asksNoLabel_append.2 ⟨?_, ?_⟩
  · split
    · split <;> simp [labelSummaries]
    · exact Diagnostics.asksNoLabel_nil
  · split <;> simp [labelSummaries]

theorem SqlQuery.asksNoLabel_check (p : SqlQuery) : (Payload.check p l).AsksNoLabel := by
  dsimp only [Payload.check]
  split <;> simp [labelSummaries]

theorem PipelineCall.asksNoLabel_check (p : PipelineCall) : (Payload.check p l).AsksNoLabel := by
  dsimp only [Payload.check]
  split <;> simp [Diagnostic.invalidPipeline, labelSummaries]

theorem Container.asksNoLabel_check (p : Container) : (check p l).AsksNoLabel := by
  refine Diagnostics.asksNoLabel_append.2 ⟨?_, ?_⟩
  · split <;> simp [labelSummaries]
  · split
    · split <;> simp [labelSummaries]
    · exact Diagnostics.asksNoLabel_nil

theorem InputRequest.asksNoLabel_check (p : InputRequest) : (check p l).AsksNoLabel := by
  refine Diagnostics.asksNoLabel_append.2 ⟨?_, Diagnostics.asksNoLabel_flatMap.2 fun o _ => ?_⟩
  · split
    · split
      · exact Diagnostics.asksNoLabel_nil
      · split <;> simp [labelSummaries]
      · simp [labelSummaries]
    · exact Diagnostics.asksNoLabel_nil
  · unfold checkStyle
    split <;> simp [labelSummaries]

end

theorem StepSpec.asksNoLabel_check (q : StepSpec) (l : Location) : (q.check l).AsksNoLabel := by
  obtain ⟨kind, p⟩ := q
  cases kind with
  | http => exact HttpRequest.asksNoLabel_check p
  | sleep => exact Sleep.asksNoLabel_check p
  | email => exact Email.asksNoLabel_check p
  | query => exact SqlQuery.asksNoLabel_check p
  | pipeline => exact PipelineCall.asksNoLabel_check p
  | container => exact Container.asksNoLabel_check p
  | input => exact InputRequest.asksNoLabel_check p
  | transform | function | message => exact Diagnostics.asksNoLabel_nil

namespace Step
variable {s : Step} {ctx : ResolutionContext}

theorem asksNoLabel_storeCommon (s : Step) (name : String) (v : Value) (l : Location) :
    (s.storeCommon name v l).2.AsksNoLabel := by
  unfold storeCommon
  split
  · dsimp only
    split <;> simp [labelSummaries]
  · dsimp only
    split <;> simp [notACollection, labelSummaries]
  · refine Diagnostics.asksNoLabel_gather (fun s entry _ => ?_) s
    unfold addEntry
    split <;> simp [labelSummaries]
  · split <;> simp

theorem asksNoLabel_setCommon (s : Step) (a : Attribute) : (s.setCommon a ctx).2.AsksNoLabel := by
  unfold setCommon
  dsimp only
  split
  · exact asksNoLabel_storeCommon _ _ _ _
  · exact Diagnostics.asksNoLabel_nil
  · rename_i failed
    exact a.expression.sparesLabels_resolve a.location ctx _ failed

theorem asksNoLabel_setOfKind (s : Step) (name : String) (a : Attribute) :
    (s.setOfKind name a ctx).2.AsksNoLabel := by
  unfold setOfKind
  dsimp only
  split
  · split <;> simp
  · exact Diagnostics.asksNoLabel_nil
  · rename_i failed
    exact a.expression.sparesLabels_resolve a.location ctx _ failed

theorem asksNoLabel_setAttributes (s : Step) (b : Block) :
    (s.setAttributes b ctx).2.AsksNoLabel := by
  refine Diagnostics.asksNoLabel_gather (fun s a _ => ?_) s
  unfold setAttribute
  split
  · exact s.asksNoLabel_setCommon a
  · split
    · exact s.asksNoLabel_setOfKind a.name a
    · simp

theorem asksNoLabel_setKindBlock (s : Step) (b : Block) :
    (s.setKindBlock b ctx).2.AsksNoLabel := by
  refine Diagnostics.asksNoLabel_append.2 ⟨?_, Block.asksNoLabel_unsupportedBlocks b.blocks b.type⟩
  refine Diagnostics.asksNoLabel_gather (fun s a _ => ?_) _
  unfold setInner
  dsimp only
  split
  · exact s.asksNoLabel_setOfKind _ a
  · simp

theorem asksNoLabel_setPolicy {α : Type} (s : Step) (b : Block) {r : Resolution α}
    (h : r.outcome.SparesLabels) (put : α → Step → Step) :
    (s.setPolicy b r put).2.AsksNoLabel := by
  unfold setPolicy
  dsimp only
  split
  · exact Diagnostics.asksNoLabel_nil
  · exact Diagnostics.asksNoLabel_nil
  · rename_i failed
    exact h _ failed

theorem asksNoLabel_setBlock (s : Step) {b : Block} (conforms : b.Conforms "step") :
    (s.setBlock b ctx).2.AsksNoLabel := by
  unfold setBlock
  split
  · unfold setLoop
    split
    · exact Diagnostics.asksNoLabel_nil
    · rename_i failed
      exact Loop.sparesLabels_ofBlock b s.kind ctx _ failed
  · exact s.asksNoLabel_setPolicy b (RetryPolicy.sparesLabels_ofBlock b ctx) _
  · exact s.asksNoLabel_setPolicy b (FailurePolicy.sparesLabels_ofBlock b ctx) _
  · unfold addThrow
    split
    · exact Diagnostics.asksNoLabel_nil
    · rename_i failed
      exact Throw.sparesLabels_ofBlock b ctx _ failed
  · rename_i type
    have opened : Shape.of? "step" b.type = some (.labeled 1) := by rw [type]; rfl
    unfold addOutput
    split
    · split <;> simp [labelSummaries]
    · rename_i failed
      exact NamedOutput.sparesLabels_ofBlock (conforms.length_labels opened) ctx _ failed
  · split
    · exact s.asksNoLabel_setKindBlock b
    · simp

theorem asksNoLabel_setBlocks (s : Step) {b : Block} (inner : ∀ i ∈ b.blocks, i.Conforms "step") :
    (s.setBlocks b ctx).2.AsksNoLabel := by
  refine Diagnostics.asksNoLabel_gather (fun state i hi => ?_) (s, [])
  unfold setBlockOnce
  dsimp only
  split
  · simp [labelSummaries]
  · exact asksNoLabel_setBlock _ (inner i hi)

theorem asksNoLabel_check (s : Step) : s.check.AsksNoLabel := by
  refine Diagnostics.asksNoLabel_append.2 ⟨s.spec.asksNoLabel_check s.location, ?_⟩
  split
  · exact RetryPolicy.asksNoLabel_check _ _
  · exact Diagnostics.asksNoLabel_nil

/-- A block with the labels of a step, and outputs with theirs, is asked for none. -/
theorem sparesLabels_ofBlock {b : Block} (labels : b.labels.length = 2)
    (inner : ∀ i ∈ b.blocks, i.Conforms "step") (pipeline : String) (ctx : ResolutionContext) :
    SparesLabels (ofBlock b pipeline ctx) := by
  obtain ⟨kind, name, both⟩ := List.length_eq_two.1 labels
  unfold ofBlock
  rw [both]
  dsimp only
  split
  · exact sparesLabels_error.2 (by simp [labelSummaries])
  · refine Diagnostics.AsksNoLabel.orValue ?_ _
    simp only [Diagnostics.asksNoLabel_append]
    exact ⟨⟨asksNoLabel_setAttributes _ b, asksNoLabel_setBlocks _ inner⟩, asksNoLabel_check _⟩

end Step

end PipelineResolution
