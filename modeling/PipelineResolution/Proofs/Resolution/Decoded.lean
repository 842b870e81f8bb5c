import PipelineResolution.Proofs.Dependency.Merging
import PipelineResolution.Proofs.Resolution.Body
import PipelineResolution.Step.Basic

/-!
# What bodies bring

A body brings what its attributes wait for, and so do the policies, loops, throws and outputs that are
decoded from one: merging it in is merging in its attributes, one after the other. A body that fails
brings nothing, and reports an error.
-/
namespace PipelineResolution

/-- Some attributes are resolved or wait, and merging in the dependencies is merging in what each of
them waits for. -/
structure DependencySet.GatheredFrom (ctx : ResolutionContext) (as : List Attribute)
    (d : DependencySet) : Prop where
  settled : ∀ a ∈ as, (a.resolve ctx).reports = []
  merge_eq : ∀ s : DependencySet,
    s.merge d = as.foldl (fun found a => found.merge (a.resolve ctx).dependencies) s

/-- What attributes wait for can be merged beforehand. -/
theorem DependencySet.gatheredFrom_foldl {ctx : ResolutionContext} {as : List Attribute}
    (settled : ∀ a ∈ as, (a.resolve ctx).reports = []) :
    GatheredFrom ctx as (as.foldl (fun found a => found.merge (a.resolve ctx).dependencies) empty) :=
  ⟨settled, fun s => merge_foldl_merge _ as s empty⟩

/-- The dependencies that a resolution brings, unless it fails. -/
def Resolution.brought {α : Type} (r : Resolution α) : Except Diagnostics DependencySet :=
  match r.outcome with
  | .failed ds => .error ds
  | _ => .ok r.dependencies

/-- A failure with an error, or what some attributes wait for. -/
structure Brings (ctx : ResolutionContext) (as : List Attribute)
    (x : Except Diagnostics DependencySet) : Prop where
  hasErrors : ∀ ds, x = .error ds → ds.hasErrors = true
  gathered : ∀ d, x = .ok d → d.GatheredFrom ctx as

variable {ctx : ResolutionContext} {as : List Attribute} {ds : Diagnostics}

namespace Brings

theorem error (h : ds.hasErrors = true) : Brings ctx as (.error ds) :=
  ⟨fun _ hds => by cases hds; exact h, fun _ hd => nomatch hd⟩

theorem ok {d : DependencySet} (h : d.GatheredFrom ctx as) : Brings ctx as (.ok d) :=
  ⟨fun _ hds => (nomatch hds), fun _ hd => by cases hd; exact h⟩

end Brings

namespace Resolution
variable {α β : Type} {r : Resolution α}

theorem brought_of_failed (h : r.outcome = .failed ds) : r.brought = .error ds := by
  rw [brought, h]

theorem brought_of_not_failed (h : ∀ ds, r.outcome ≠ .failed ds) : r.brought = .ok r.dependencies := by
  unfold brought
  split
  · rename_i ds failed
    exact absurd failed (h ds)
  · rfl

/-- What is read from a resolved value brings what the value brings. -/
theorem brings_refine (h : Brings ctx as r.brought) {f : α → Except Diagnostics β}
    (hf : ∀ a ds, f a = .error ds → ds.hasErrors = true) : Brings ctx as (r.refine f).brought := by
  obtain ⟨outcome, dependencies⟩ := r
  cases outcome with
  | resolved a =>
    cases hb : f a with
    | ok b =>
      simp only [refine, hb]
      exact h
    | error ds =>
      simp only [refine, hb]
      exact .error (hf a ds hb)
  | deferred => exact h
  | failed ds => exact .error (h.hasErrors ds rfl)

end Resolution

theorem Attribute.brings_resolve (a : Attribute) (ctx : ResolutionContext) :
    Brings ctx [a] (a.resolve ctx).brought := by
  cases ho : (a.resolve ctx).outcome with
  | failed ds =>
    rw [Resolution.brought_of_failed ho]
    exact .error (Expression.hasErrors_of_failed ho)
  | resolved v =>
    rw [Resolution.brought_of_not_failed (by simp [ho])]
    exact .ok ⟨by simp [Resolution.reports, ho], fun s => rfl⟩
  | deferred =>
    rw [Resolution.brought_of_not_failed (by simp [ho])]
    exact .ok ⟨by simp [Resolution.reports, ho], fun s => rfl⟩

namespace Block

/-- A body fails with the errors of its attributes. -/
theorem hasErrors_of_failed {b : Block} (h : (b.resolveBody ctx).outcome = .failed ds) :
    ds.hasErrors = true := by
  obtain ⟨hr, -, -⟩ := foldl_add ctx b.attributes ⟨[], .empty, [], false⟩
  unfold resolveBody at h
  dsimp only at h hr
  split at h
  · rename_i some
    cases h
    rw [hr, List.nil_append] at some ⊢
    obtain ⟨a, ha, reports⟩ : ∃ a ∈ b.attributes, (a.resolve ctx).reports ≠ [] := by simpa using some
    have failed : (a.resolve ctx).outcome = .failed (a.resolve ctx).reports := by
      unfold Resolution.reports at reports ⊢
      split at reports
      · assumption
      · exact absurd rfl reports
    obtain ⟨d, hd, he⟩ := List.any_eq_true.1 (Expression.hasErrors_of_failed failed)
    exact List.any_eq_true.2 ⟨d, List.mem_flatMap.2 ⟨a, ha, hd⟩, he⟩
  · split at h <;> cases h

theorem brings_resolveBody (b : Block) (ctx : ResolutionContext) :
    Brings ctx b.attributes (b.resolveBody ctx).brought := by
  by_cases h : ∃ ds, (b.resolveBody ctx).outcome = .failed ds
  · obtain ⟨ds, failed⟩ := h
    rw [Resolution.brought_of_failed failed]
    exact .error (hasErrors_of_failed failed)
  · have h := not_exists.1 h
    obtain ⟨settled, found⟩ := resolveBody_of_not_failed h
    rw [Resolution.brought_of_not_failed h, found]
    exact .ok (DependencySet.gatheredFrom_foldl settled)

theorem isError_of_unsupported {b : Block} {allowed : List String} :
    ∀ d ∈ b.unsupportedAttributes allowed, d.isError = true := by
  intro d hd
  obtain ⟨a, -, rfl⟩ := List.mem_map.1 hd
  rfl

/-- An attribute that is not expected fails the body before it is resolved. -/
theorem brings_supported {α : Type} {r : Resolution α} (b : Block) (allowed : List String)
    (h : Brings ctx as r.brought) :
    Brings ctx as (if !(b.unsupportedAttributes allowed).isEmpty
      then .failed (b.unsupportedAttributes allowed) else r).brought := by
  split
  · rename_i unsupported
    exact .error (Diagnostics.hasErrors_of_forall isError_of_unsupported (by simpa using unsupported))
  · exact h

end Block

theorem RetryPolicy.brings_ofBlock (b : Block) (ctx : ResolutionContext) :
    Brings (ctx.within .retry) b.attributes (ofBlock b ctx).brought :=
  b.brings_supported _ <|
    Resolution.brings_refine (b.brings_resolveBody _) fun _ _ => Diagnostics.hasErrors_of_orValue

theorem FailurePolicy.brings_ofBlock (b : Block) (ctx : ResolutionContext) :
    Brings (ctx.within .error) b.attributes (ofBlock b ctx).brought :=
  b.brings_supported _ <|
    Resolution.brings_refine (b.brings_resolveBody _) fun _ _ => Diagnostics.hasErrors_of_orValue

theorem Loop.isError_of_draft {kind : StepKind} (as : List Attribute) {d : Draft}
    (h : ∀ r ∈ d.diagnostics, r.isError = true) :
    ∀ r ∈ (as.foldl (Draft.add kind) d).diagnostics, r.isError = true := by
  induction as generalizing d with
  | nil => exact h
  | cons a as ih =>
    refine ih fun r hr => ?_
    unfold Draft.add at hr
    split at hr
    · exact h r hr
    · split at hr
      · exact h r hr
      · rcases List.mem_append.1 hr with hr | hr
        · exact h r hr
        · rw [List.mem_singleton.1 hr]
          rfl

theorem Loop.brings_ofBlock (b : Block) (kind : StepKind) (ctx : ResolutionContext) :
    Brings (ctx.within .loop) b.attributes ((ofBlock b kind ctx).map Prod.snd) := by
  have body := b.brings_resolveBody (ctx.within .loop)
  unfold ofBlock
  dsimp only
  split
  · refine .error ?_
    rw [Diagnostics.hasErrors_append]
    exact Bool.or_eq_true_iff.2 (.inr rfl)
  · split
    · rename_i unsupported
      exact .error (Diagnostics.hasErrors_of_forall
        (isError_of_draft _ fun _ hr => nomatch hr) (by simpa using unsupported))
    · split
      · exact .error rfl
      · rename_i deferred
        rw [Resolution.brought_of_not_failed (by simp [deferred])] at body
        exact body
      · rename_i ds failed
        rw [Resolution.brought_of_failed failed] at body
        exact body

theorem Throw.brings_ofBlock (b : Block) (ctx : ResolutionContext) :
    Brings (ctx.within .throw) b.attributes ((ofBlock b ctx).map Prod.snd) := by
  have body := b.brings_resolveBody (ctx.within .throw)
  unfold ofBlock
  dsimp only
  generalize hds : b.unsupportedAttributes _ ++ _ = unsupported
  split
  · rename_i some
    refine .error (Diagnostics.hasErrors_of_forall (fun d hd => ?_) (by simpa using some))
    rw [← hds] at hd
    rcases List.mem_append.1 hd with hd | hd
    · exact Block.isError_of_unsupported d hd
    · split at hd
      · rw [List.mem_singleton.1 hd]
        rfl
      · cases hd
  · split
    · rename_i values resolved
      rw [Resolution.brought_of_not_failed (by simp [resolved])] at body
      cases hv : ofValues values b.location with
      | ok t => exact body
      | error ds => exact .error (Diagnostics.hasErrors_of_orValue hv)
    · rename_i deferred
      rw [Resolution.brought_of_not_failed (by simp [deferred])] at body
      exact body
    · rename_i ds failed
      rw [Resolution.brought_of_failed failed] at body
      exact body

theorem NamedOutput.brings_contentOf (b : Block) (ctx : ResolutionContext) :
    Brings ctx (b.attribute? "value").toList ((contentOf b ctx).map Prod.snd) := by
  unfold contentOf
  split
  · exact .error rfl
  · rename_i a ha
    have value := a.brings_resolve ctx
    rw [ha]
    dsimp only
    split
    · rename_i v resolved
      rw [Resolution.brought_of_not_failed (by simp [resolved])] at value
      exact value
    · rename_i deferred
      rw [Resolution.brought_of_not_failed (by simp [deferred])] at value
      exact value
    · rename_i ds failed
      rw [Resolution.brought_of_failed failed] at value
      exact value

theorem NamedOutput.brings_ofBlock (b : Block) (ctx : ResolutionContext) :
    Brings ctx (b.attribute? "value").toList ((ofBlock b ctx).map (·.dependencies)) := by
  have content := brings_contentOf b ctx
  unfold ofBlock
  split
  · exact .error rfl
  · dsimp only
    split
    · rename_i found hf
      refine .error ?_
      rw [Diagnostics.hasErrors_append, content.hasErrors found (by rw [hf]; rfl), Bool.or_true]
    · rename_i value dependencies hv
      unfold Diagnostics.orValue
      split
      · exact .error ‹_›
      · exact .ok (content.gathered dependencies (by rw [hv]; rfl))

end PipelineResolution
