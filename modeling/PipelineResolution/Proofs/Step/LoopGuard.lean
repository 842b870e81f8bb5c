import PipelineResolution.Proofs.Resolution.Body
import PipelineResolution.Step.Loop

/-!
# The guard against endless loops

A loop is accepted when its body as a whole waits for a run. The condition on its own may be known
already; then something else in the body changes from one run to the next.
-/
namespace PipelineResolution

theorem Attribute.reports_eq_nil {a : Attribute} {ctx : ResolutionContext} :
    (a.resolve ctx).reports = [] ↔ ∀ ds, (a.resolve ctx).outcome ≠ .failed ds := by
  constructor
  · intro h ds failed
    rcases Expression.resolved_or_deferred h with ⟨v, known⟩ | waiting
    · cases failed.symm.trans known
    · cases failed.symm.trans waiting
  · intro h
    unfold Resolution.reports
    split
    · rename_i ds failed
      exact absurd failed (h ds)
    · rfl

/-- A body waits when no attribute fails and one of them waits. -/
theorem Block.resolveBody_eq_deferred {b : Block} {ctx : ResolutionContext} :
    (b.resolveBody ctx).outcome = .deferred ↔
      (∀ a ∈ b.attributes, ∀ ds, (a.resolve ctx).outcome ≠ .failed ds) ∧
        ∃ a ∈ b.attributes, (a.resolve ctx).outcome = .deferred := by
  obtain ⟨reports, deferred, -⟩ := foldl_add ctx b.attributes ⟨[], .empty, [], false⟩
  have waits (a : Attribute) :
      (a.resolve ctx).isDeferred = true ↔ (a.resolve ctx).outcome = .deferred := by
    unfold Resolution.isDeferred
    cases (a.resolve ctx).outcome <;> simp
  simp only [List.nil_append, Bool.false_or] at reports deferred
  simp only [← Attribute.reports_eq_nil, ← waits, ← List.flatMap_eq_nil_iff, ← List.any_eq_true,
    ← reports, ← deferred]
  unfold resolveBody
  generalize b.attributes.foldl _ _ = p
  cases hd : p.deferred <;> cases hr : p.diagnostics <;>
    simp [hd, hr, Resolution.failed, Resolution.deferred]

namespace Loop
variable {kind : StepKind} {ctx : ResolutionContext} {b : Block}

/-- The last attribute that gives the condition counts. -/
theorem condition_draft (kind : StepKind) (as : List Attribute) (d : Draft) :
    ((∀ a ∈ as, a.name ≠ "until") ∧ (as.foldl (Draft.add kind) d).condition = d.condition) ∨
      ∃ before a after, as = before ++ a :: after ∧ a.name = "until" ∧
        (∀ other ∈ after, other.name ≠ "until") ∧
        (as.foldl (Draft.add kind) d).condition = some a.expression := by
  induction as generalizing d with
  | nil => exact .inl ⟨fun _ h => (nomatch h), rfl⟩
  | cons a as ih =>
    rcases ih (d.add kind a) with ⟨free, same⟩ | ⟨before, last, after, rfl, found⟩
    · by_cases ha : a.name = "until"
      · refine .inr ⟨[], a, as, rfl, ha, free, same.trans ?_⟩
        simp [Draft.add, ha]
      · refine .inl ⟨List.forall_mem_cons.2 ⟨ha, free⟩, same.trans ?_⟩
        unfold Draft.add
        split
        · simp_all
        · split <;> rfl
    · exact .inr ⟨a :: before, last, after, rfl, found⟩

theorem diagnostics_draft (kind : StepKind) (as : List Attribute) (d : Draft) :
    (as.foldl (Draft.add kind) d).diagnostics = [] ↔
      d.diagnostics = [] ∧ ∀ a ∈ as, a.name = "until" ∨ kind.accepts a.name = true := by
  induction as generalizing d with
  | nil => simp
  | cons a as ih =>
    have one : (d.add kind a).diagnostics = [] ↔
        d.diagnostics = [] ∧ (a.name = "until" ∨ kind.accepts a.name = true) := by
      unfold Draft.add
      by_cases ha : a.name = "until"
      · simp [ha]
      · by_cases hk : kind.accepts a.name = true <;> simp [ha, hk]
    rw [List.foldl_cons, ih, one, List.forall_mem_cons, and_assoc]

/-- What the guard asks of a block: a condition, nothing that the kind does not take, no attribute
that fails, and one that waits for a run. -/
structure Guarded (b : Block) (kind : StepKind) (ctx : ResolutionContext) : Prop where
  stops : ∃ a ∈ b.attributes, a.name = "until"
  accepted : ∀ a ∈ b.attributes, a.name = "until" ∨ kind.accepts a.name = true
  settled : ∀ a ∈ b.attributes, ∀ ds, (a.resolve (ctx.within .loop)).outcome ≠ .failed ds
  waits : ∃ a ∈ b.attributes, (a.resolve (ctx.within .loop)).outcome = .deferred

/-- The attribute that gives a loop its condition is the last one of the body with its name. -/
def GivesCondition (b : Block) (l : Loop) (a : Attribute) : Prop :=
  ∃ before after, b.attributes = before ++ a :: after ∧ a.name = "until" ∧
    (∀ other ∈ after, other.name ≠ "until") ∧ l.stopWhen = a.expression

theorem ofBlock_eq_ok {l : Loop} {dependencies : DependencySet} :
    ofBlock b kind ctx = .ok (l, dependencies) ↔
      let d := b.attributes.foldl (Draft.add kind) ⟨none, [], []⟩
      let r := b.resolveBody (ctx.within .loop)
      ∃ e, d.condition = some e ∧ d.diagnostics = [] ∧ r.outcome = .deferred ∧
        l = ⟨e, d.overrides, b.location⟩ ∧ dependencies = r.dependencies := by
  unfold ofBlock
  dsimp only
  constructor
  · intro h
    split at h
    · cases h
    · rename_i e hc
      split at h
      · cases h
      · rename_i hd
        split at h
        · cases h
        · cases h
          exact ⟨e, hc, by simpa using hd, ‹_›, rfl, rfl⟩
        · cases h
  · rintro ⟨e, hc, hd, waiting, rfl, rfl⟩
    simp [hc, hd, waiting]

theorem guarded_of_ofBlock {l : Loop} {dependencies : DependencySet}
    (accepted : ofBlock b kind ctx = .ok (l, dependencies)) : Guarded b kind ctx := by
  obtain ⟨e, hc, hd, waiting, -, -⟩ := ofBlock_eq_ok.1 accepted
  obtain ⟨settled, waits⟩ := Block.resolveBody_eq_deferred.1 waiting
  refine ⟨?_, ((diagnostics_draft kind _ _).1 hd).2, settled, waits⟩
  rcases condition_draft kind b.attributes ⟨none, [], []⟩ with
    ⟨-, none⟩ | ⟨before, a, after, split, ha, -⟩
  · cases none.symm.trans hc
  · exact ⟨a, by simp [split], ha⟩

theorem Guarded.exists_ofBlock (guarded : Guarded b kind ctx) :
    ∃ l dependencies, ofBlock b kind ctx = .ok (l, dependencies) := by
  have waiting := Block.resolveBody_eq_deferred.2 ⟨guarded.settled, guarded.waits⟩
  have known := (diagnostics_draft kind b.attributes ⟨none, [], []⟩).2 ⟨rfl, guarded.accepted⟩
  rcases condition_draft kind b.attributes ⟨none, [], []⟩ with
    ⟨free, -⟩ | ⟨before, a, after, -, -, -, found⟩
  · obtain ⟨a, ha, named⟩ := guarded.stops
    exact absurd named (free a ha)
  · exact ⟨_, _, ofBlock_eq_ok.2 ⟨_, found, known, waiting, rfl, rfl⟩⟩

theorem exists_givesCondition {l : Loop} {dependencies : DependencySet}
    (accepted : ofBlock b kind ctx = .ok (l, dependencies)) : ∃ a, GivesCondition b l a := by
  obtain ⟨e, hc, -, -, rfl, -⟩ := ofBlock_eq_ok.1 accepted
  rcases condition_draft kind b.attributes ⟨none, [], []⟩ with
    ⟨-, none⟩ | ⟨before, a, after, split, named, last, found⟩
  · cases none.symm.trans hc
  · exact ⟨a, before, after, split, named, last, Option.some.inj (hc.symm.trans found)⟩

theorem GivesCondition.mem {l : Loop} {a : Attribute} (h : GivesCondition b l a) :
    a ∈ b.attributes := by
  obtain ⟨before, after, split, -⟩ := h
  simp [split]

/-- The guard asks that the body as a whole waits, so a condition that is known already is accepted
next to an attribute that waits. -/
theorem accepted_iff_guarded (b : Block) (kind : StepKind) (ctx : ResolutionContext) :
    ((∃ l dependencies, ofBlock b kind ctx = .ok (l, dependencies)) ↔ Guarded b kind ctx) ∧
      ∀ l dependencies, ofBlock b kind ctx = .ok (l, dependencies) →
        ∃ a, GivesCondition b l a ∧
          ((a.resolve (ctx.within .loop)).outcome = .deferred ∨
            (∃ v, (a.resolve (ctx.within .loop)).outcome = .resolved v) ∧
              ∃ other ∈ b.attributes, other ≠ a ∧
                (other.resolve (ctx.within .loop)).outcome = .deferred) := by
  refine ⟨⟨fun ⟨_, _, accepted⟩ => guarded_of_ofBlock accepted, (·.exists_ofBlock)⟩,
    fun l dependencies accepted => ?_⟩
  have guarded := guarded_of_ofBlock accepted
  obtain ⟨a, gives⟩ := exists_givesCondition accepted
  obtain ⟨other, hother, waits⟩ := guarded.waits
  refine ⟨a, gives, ?_⟩
  cases ho : (a.resolve (ctx.within .loop)).outcome with
  | deferred => exact .inl rfl
  | resolved v =>
    refine .inr ⟨⟨v, rfl⟩, other, hother, ?_, waits⟩
    rintro rfl
    cases ho.symm.trans waits
  | failed ds => exact absurd ho (guarded.settled a gives.mem ds)

/-- A loop over the pages of a result that never stops. -/
def endlessBlock : Block :=
  ⟨"loop", [], [⟨"until", .literal (.bool false), default⟩,
    ⟨"url", .term (.access (.variable "result") [.member "next"]), default⟩], [], default, []⟩

/-- The address changes from one run to the next, and the condition does not. -/
theorem not_deferred_givesCondition :
    ¬∀ (b : Block) (kind : StepKind) (ctx : ResolutionContext) (l : Loop)
      (dependencies : DependencySet) (a : Attribute),
      ofBlock b kind ctx = .ok (l, dependencies) → GivesCondition b l a →
        (a.resolve (ctx.within .loop)).outcome = .deferred := by
  intro claim
  have deferred := claim endlessBlock .http ⟨⟨[]⟩, {}, .plain, .brief⟩ _ _
    ⟨"until", .literal (.bool false), default⟩ rfl ⟨[], _, rfl, rfl, by decide, rfl⟩
  cases deferred

end Loop
end PipelineResolution
