import PipelineResolution.Proofs.Resolution.Decoded

/-!
# The edges of expressions

Where neither `step` nor `credential` is bound, an expression that does not fail depends on exactly
the targets of its references, each long enough to name one. A body depends on what its attributes
depend on, and so do the policies, loops, throws and outputs that are decoded from one.
-/
namespace PipelineResolution

namespace Expression
variable {e : Expression} {ctx : ResolutionContext}

/-- The edges that the references of an expression become. -/
def edges (e : Expression) : List Edge := e.edgesTo "step" ++ e.edgesTo "credential"

/-- Every reference to a step or a credential names its target. -/
structure Addressed (e : Expression) : Prop where
  steps : ∀ r ∈ e.referencesTo "step", 3 ≤ r.segmentCount
  credentials : ∀ r ∈ e.referencesTo "credential", 2 ≤ r.segmentCount

/-- A root that is neither bound nor unknown is not referred to. -/
theorem referencesTo_eq_nil {root : String} (free : ctx.environment.binds root = false)
    (known : root ∉ e.unknownRoots ctx.environment) : e.referencesTo root = [] := by
  refine List.filter_eq_nil_iff.2 fun r hr hroot => known ?_
  exact List.mem_filter.2 ⟨mem_roots.2 ⟨r, hr, by simpa using hroot⟩, by simp [free]⟩

theorem edgesTo_eq_nil {root : String} (h : e.referencesTo root = []) : e.edgesTo root = [] := by
  unfold edgesTo
  rw [h]
  split
  · rfl
  · split <;> rfl

theorem mem_edges_of_edgesTo {name : String} {edge : Edge} (h : edge ∈ e.edgesTo name) :
    edge ∈ e.edges := by
  by_cases hs : name = "step"
  · subst hs
    exact List.mem_append_left _ h
  by_cases hc : name = "credential"
  · subst hc
    exact List.mem_append_right _ h
  · rw [edgesTo, if_neg hs, if_neg hc] at h
    cases h

/-- Whatever is reported, only references of the expression become edges. -/
theorem mem_edges_of_classifyAll {ds : Diagnostics} {edge : Edge}
    (h : edge ∈ (classifyAll ds e ctx).edges) : edge ∈ e.edges := by
  rw [classifyAll_distinct] at h
  obtain ⟨d, -, he⟩ := List.mem_flatMap.1 h
  unfold classify at he
  split at he
  · rename_i root _
    rw [classifyRoot_eq] at he
    split at he
    · cases he
    · split at he
      · exact mem_edges_of_edgesTo he
      · cases he
  · cases he

end Expression

/-- The dependencies are those of some expressions, all of which name their targets. -/
structure DependencySet.IsOf (d : DependencySet) (es : List Expression) : Prop where
  addressed : ∀ e ∈ es, e.Addressed
  mem_iff : ∀ edge, edge ∈ d ↔ ∃ e ∈ es, edge ∈ e.edges

/-- A resolution fails with an error, or it depends on what some expressions depend on. -/
structure Resolution.Covers {α : Type} (r : Resolution α) (es : List Expression) : Prop where
  hasErrors : ∀ ds, r.outcome = .failed ds → ds.hasErrors = true
  isOf : (∀ ds, r.outcome ≠ .failed ds) → r.dependencies.IsOf es

section
variable {ctx : ResolutionContext} (free : ctx.environment.binds "step" = false)
  (free' : ctx.environment.binds "credential" = false)
include free free'

theorem Expression.resolve_covers (e : Expression) (location : Location) :
    (e.resolve location ctx).Covers [e] := by
  refine ⟨fun ds => hasErrors_of_failed, fun h => ?_⟩
  by_cases unknown : e.unknownRoots ctx.environment = []
  · have hs := referencesTo_eq_nil (e := e) free (by simp [unknown])
    have hc := referencesTo_eq_nil (e := e) free' (by simp [unknown])
    have none : e.edges = [] := by
      rw [edges, edgesTo_eq_nil hs, edgesTo_eq_nil hc, List.nil_append]
    refine ⟨fun e' he => ?_, fun edge => ?_⟩
    · rw [List.mem_singleton.1 he]
      exact ⟨by simp [hs], by simp [hc]⟩
    · simp only [List.mem_singleton, exists_eq_left, none, List.not_mem_nil, iff_false]
      unfold resolve
      split
      · split <;> exact DependencySet.mem_empty
      · dsimp only
        split
        · intro hm
          have he := mem_edges_of_classifyAll (DependencySet.mem_ofEdges.1 hm)
          rw [none] at he
          cases he
        · exact DependencySet.mem_empty
  · by_cases hd : e.Deferrable ctx
    · rw [resolve_of_deferrable location unknown hd]
      refine ⟨fun e' he => ?_, fun edge => ?_⟩
      · rw [List.mem_singleton.1 he]
        constructor
        · by_cases hs : "step" ∈ e.unknownRoots ctx.environment
          · exact hd.steps hs
          · simp [referencesTo_eq_nil free hs]
        · by_cases hc : "credential" ∈ e.unknownRoots ctx.environment
          · exact hd.credentials hc
          · simp [referencesTo_eq_nil free' hc]
      · simp only [List.mem_singleton, exists_eq_left, Resolution.deferred]
        rw [← ofEdges_edgesTo, DependencySet.mem_ofEdges, List.mem_flatMap]
        have unknownOf {root : String} (hfree : ctx.environment.binds root = false)
            (hm : edge ∈ e.edgesTo root) : root ∈ e.unknownRoots ctx.environment := by
          refine Decidable.byContradiction fun hn => ?_
          rw [edgesTo_eq_nil (referencesTo_eq_nil hfree hn)] at hm
          cases hm
        constructor
        · rintro ⟨name, -, hm⟩
          exact mem_edges_of_edgesTo hm
        · intro hm
          rcases List.mem_append.1 hm with hm | hm
          · exact ⟨_, unknownOf free hm, hm⟩
          · exact ⟨_, unknownOf free' hm, hm⟩
    · rw [resolve_of_not_deferrable location unknown hd] at h
      exact absurd rfl (h _)

/-- What attributes that do not fail wait for is what their expressions depend on. -/
theorem DependencySet.GatheredFrom.isOf {d : DependencySet} {as : List Attribute}
    (h : d.GatheredFrom ctx as) : d.IsOf (as.map (·.expression)) := by
  have isOf (a : Attribute) (ha : a ∈ as) : (a.resolve ctx).dependencies.IsOf [a.expression] := by
    refine (a.expression.resolve_covers free free' a.location).isOf fun ds failed => ?_
    rcases Expression.resolved_or_deferred (h.settled a ha) with ⟨v, resolved⟩ | deferred
    · cases failed.symm.trans resolved
    · cases failed.symm.trans deferred
  refine ⟨fun e he => ?_, fun edge => ?_⟩
  · obtain ⟨a, ha, rfl⟩ := List.mem_map.1 he
    exact (isOf a ha).addressed _ (List.mem_singleton.2 rfl)
  · have merged : edge ∈ d ↔ edge ∈ DependencySet.empty.merge d :=
      (DependencySet.mem_merge.trans (or_iff_right DependencySet.mem_empty)).symm
    rw [merged, h.merge_eq, DependencySet.mem_foldl_merge, or_iff_right DependencySet.mem_empty]
    constructor
    · rintro ⟨a, ha, he⟩
      obtain ⟨e, hm, he⟩ := ((isOf a ha).mem_iff edge).1 he
      exact ⟨e, List.mem_singleton.1 hm ▸ List.mem_map_of_mem ha, he⟩
    · rintro ⟨e, hm, he⟩
      obtain ⟨a, ha, rfl⟩ := List.mem_map.1 hm
      exact ⟨a, ha, ((isOf a ha).mem_iff edge).2 ⟨_, List.mem_singleton.2 rfl, he⟩⟩

end
end PipelineResolution
