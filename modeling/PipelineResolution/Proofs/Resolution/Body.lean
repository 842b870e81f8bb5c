import PipelineResolution.Proofs.Expression.Extension
import PipelineResolution.Proofs.Resolution.Deferral

/-!
# Bodies as the sum of their attributes

A body is resolved attribute by attribute. It fails with the reports of all attributes, waits when
one of them does, and otherwise holds the value of each.
-/
namespace PipelineResolution

theorem Diagnostics.hasErrors_orAbout (ds : Diagnostics) (subject : Location) :
    (ds.orAbout subject).hasErrors = ds.hasErrors := List.any_map

/-- What a resolution reports. -/
def Resolution.reports {α : Type} (r : Resolution α) : Diagnostics :=
  match r.outcome with
  | .failed ds => ds
  | _ => []

def Resolution.isDeferred {α : Type} (r : Resolution α) : Bool :=
  match r.outcome with
  | .deferred => true
  | _ => false

namespace Expression
variable {e : Expression} {location : Location} {ctx : ResolutionContext}

/-- What is resolved is the value in the environment of the document. -/
theorem evaluate_of_resolved {v : Value} (h : (e.resolve location ctx).outcome = .resolved v) :
    e.evaluate ctx.environment = .ok v := by
  unfold resolve at h
  split at h
  · split at h
    · cases h
    · cases h
      exact evaluateWith_eq_ok.1 ‹_›
  · dsimp only at h
    split at h <;> cases h

/-- A value is resolved unless it has to wait for `param`. -/
theorem resolve_of_evaluate {v : Value} (h : e.evaluate ctx.environment = .ok v) :
    e.resolve location ctx = if e.usesParam then .deferred .empty else .resolved v := by
  rw [resolve, evaluateWith_eq_ok.2 h]

/-- A failed resolution reports an error. -/
theorem hasErrors_of_failed {ds : Diagnostics}
    (h : (e.resolve location ctx).outcome = .failed ds) : ds.hasErrors = true := by
  unfold resolve at h
  split at h
  · split at h <;> cases h
  · rename_i found he
    dsimp only at h
    split at h
    · cases h
    · cases h
      rw [Diagnostics.hasErrors_append, Diagnostics.hasErrors_orAbout, hasErrors_of_evaluateWith he]
      rfl

theorem resolved_or_deferred (h : (e.resolve location ctx).reports = []) :
    (∃ v, (e.resolve location ctx).outcome = .resolved v) ∨
      (e.resolve location ctx).outcome = .deferred := by
  cases ho : (e.resolve location ctx).outcome with
  | resolved v => exact .inl ⟨v, rfl⟩
  | deferred => exact .inr rfl
  | failed ds =>
    simp only [Resolution.reports, ho] at h
    exact absurd (hasErrors_of_failed (h ▸ ho)) (by simp [Diagnostics.hasErrors])

end Expression

namespace Block
variable {ctx : ResolutionContext}

/-- Everything that has been gathered when all attributes of a list are gone through. -/
theorem foldl_add (ctx : ResolutionContext) (as : List Attribute) (p : Progress) :
    let q := as.foldl (fun p a => p.add a.name (a.resolve ctx)) p
    q.diagnostics = p.diagnostics ++ as.flatMap (fun a => (a.resolve ctx).reports) ∧
      q.deferred = (p.deferred || as.any fun a => (a.resolve ctx).isDeferred) ∧
      q.dependencies =
        as.foldl (fun found a => found.merge (a.resolve ctx).dependencies) p.dependencies := by
  induction as generalizing p with
  | nil => simp
  | cons a as ih =>
    obtain ⟨hr, hd, hf⟩ := ih (p.add a.name (a.resolve ctx))
    dsimp only at hr hd hf ⊢
    rw [List.foldl_cons, hr, hd, hf]
    unfold Progress.add
    cases ho : (a.resolve ctx).outcome <;>
      simp [Resolution.reports, Resolution.isDeferred, ho]

/-- A body that does not fail has no failed attribute and the dependencies of all of them. -/
theorem resolveBody_of_not_failed {b : Block}
    (h : ∀ ds, (b.resolveBody ctx).outcome ≠ .failed ds) :
    (∀ a ∈ b.attributes, (a.resolve ctx).reports = []) ∧
      (b.resolveBody ctx).dependencies =
        b.attributes.foldl (fun found a => found.merge (a.resolve ctx).dependencies) .empty := by
  obtain ⟨hr, -, hf⟩ := foldl_add ctx b.attributes ⟨[], .empty, [], false⟩
  unfold resolveBody at h ⊢
  dsimp only at h hr hf ⊢
  split at h
  · exact absurd rfl (h _)
  · rename_i hn
    rw [if_neg hn]
    simp only [hr, List.nil_append, Bool.not_eq_true, Bool.not_eq_false', List.isEmpty_iff] at hn
    refine ⟨List.flatMap_eq_nil_iff.1 hn, ?_⟩
    split <;> exact hf

theorem resolved_of_resolveBody {b : Block} {values : Dict Value}
    (h : (b.resolveBody ctx).outcome = .resolved values) :
    (∀ a ∈ b.attributes, ∃ v, (a.resolve ctx).outcome = .resolved v) ∧
      values = (b.attributes.foldl (fun p a => p.add a.name (a.resolve ctx))
        (⟨[], .empty, [], false⟩ : Progress)).values := by
  have hn := (resolveBody_of_not_failed fun ds hf => by rw [h] at hf; cases hf).1
  obtain ⟨-, hd, -⟩ := foldl_add ctx b.attributes ⟨[], .empty, [], false⟩
  unfold resolveBody at h
  dsimp only at h hd
  split at h
  · cases h
  · split at h
    · cases h
    · rename_i hdeferred
      cases h
      refine ⟨fun a ha => ?_, rfl⟩
      rcases Expression.resolved_or_deferred (hn a ha) with hv | hw
      · exact hv
      · refine absurd (hd.trans ?_) hdeferred
        exact Bool.or_eq_true_iff.2 (.inr (List.any_eq_true.2 ⟨a, ha, by
          simp only [Attribute.resolve, Resolution.isDeferred, hw]⟩))

/-- Values that are inserted one by one are those that the resolution of a list gathers. -/
theorem foldl_values {as : List Attribute} {p : Progress}
    {f : Dict Value × Diagnostics → Attribute → Dict Value × Diagnostics}
    (known : ∀ a ∈ as, ∃ v, (a.resolve ctx).outcome = .resolved v)
    (insert : ∀ a v values, (a.resolve ctx).outcome = .resolved v →
      f (values, []) a = (values.insert a.name v, [])) :
    as.foldl f (p.values, []) =
      ((as.foldl (fun p a => p.add a.name (a.resolve ctx)) p).values, []) := by
  induction as generalizing p with
  | nil => rfl
  | cons a as ih =>
    obtain ⟨⟨v, hv⟩, known⟩ := List.forall_mem_cons.1 known
    have added : (p.add a.name (a.resolve ctx)).values = p.values.insert a.name v := by
      simp only [Progress.add, hv]
    rw [List.foldl_cons, List.foldl_cons, insert a v p.values hv, ← added]
    exact ih known

/-- A body that is resolved evaluates to the same values where its attributes do. -/
theorem evaluateBody_of_resolved {b : Block} {values : Dict Value} {env : Environment}
    (h : (b.resolveBody ctx).outcome = .resolved values)
    (keeps : ∀ e : Expression, Keeps (e.evaluate ctx.environment) (e.evaluate env)) :
    b.evaluateBody env = .ok values := by
  obtain ⟨known, rfl⟩ := resolved_of_resolveBody h
  refine congrArg (fun found : Dict Value × Diagnostics => Diagnostics.orValue found.2 found.1)
    (foldl_values (p := ⟨[], .empty, [], false⟩) known fun a v values hv => ?_)
  have evaluates := keeps _ v (Expression.evaluate_of_resolved hv)
  simp only [evaluates]

end Block
end PipelineResolution
