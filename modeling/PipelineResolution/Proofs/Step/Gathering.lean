import PipelineResolution.Proofs.Resolution.Deferral
import PipelineResolution.Proofs.Step.Decoding

/-!
# The dependencies of a decoded step

While a step is decoded, every expression that is kept has its references to other steps among the
dependencies gathered so far. Each way of changing the step either reports an error or keeps this,
so it holds of every accepted step.
-/
namespace PipelineResolution

namespace Expression
variable {e : Expression} {targets more : List String}

/-- Every reference to a step names one of some targets. -/
def StepsIn (e : Expression) (targets : List String) : Prop :=
  ∀ r ∈ e.referencesTo "step", ∃ kind name rest, r.path = kind :: name :: rest ∧
    kind ++ "." ++ name ∈ targets

theorem StepsIn.mono (h : e.StepsIn targets) (sub : ∀ t ∈ targets, t ∈ more) : e.StepsIn more := by
  intro r hr
  obtain ⟨kind, name, rest, hp, hm⟩ := h r hr
  exact ⟨kind, name, rest, hp, sub _ hm⟩

theorem stepsIn_awaited {ctx : ResolutionContext} (h : e.Deferrable ctx)
    (unbound : "step" ∈ e.unknownRoots ctx.environment) :
    e.StepsIn (e.awaited ctx.environment).steps := by
  intro r hr
  obtain ⟨root, path⟩ := r
  have hlong := h.steps unbound _ hr
  match path with
  | [] | [_] => exact absurd hlong (by simp [Reference.segmentCount])
  | kind :: name :: rest =>
    refine ⟨kind, name, rest, rfl, ?_⟩
    rw [awaited, if_pos unbound, targetsOf, List.mem_eraseDups]
    exact List.mem_map.2 ⟨_, hr, rfl⟩

/-- An expression resolves with an error, or its dependencies hold its references to steps. -/
theorem resolve_stepsIn (e : Expression) (location : Location) {ctx : ResolutionContext}
    (free : ctx.environment.binds "step" = false) :
    (∃ ds, (e.resolve location ctx).outcome = .failed ds ∧ ds.hasErrors = true) ∨
      e.StepsIn (e.resolve location ctx).dependencies.steps := by
  by_cases hs : "step" ∈ e.unknownRoots ctx.environment
  · have unknown : e.unknownRoots ctx.environment ≠ [] := List.ne_nil_of_mem hs
    by_cases h : e.Deferrable ctx
    · rw [resolve_of_deferrable location unknown h]
      exact .inr (stepsIn_awaited h hs)
    · rw [resolve_of_not_deferrable location unknown h]
      refine .inl ⟨_, rfl, List.any_eq_true.2 ⟨(Diagnostic.unknownVariable "step").about location,
        List.mem_map_of_mem (List.mem_append_left _ (List.mem_map_of_mem hs)), rfl⟩⟩
  · -- An expression without unbound `step` has no reference to a step at all.
    refine .inr fun r hr => absurd ?_ hs
    have hroot := List.mem_filter.1 hr
    refine List.mem_filter.2 ⟨mem_roots.2 ⟨r, hroot.1, by simpa using hroot.2⟩, by simp [free]⟩

end Expression

namespace Step
variable {s s' : Step} {ctx : ResolutionContext}

/-- The expressions that a step keeps for run time. -/
def expressions (s : Step) : List Expression := s.deferred.values ++ s.forEach.toList

def Gathered (s : Step) : Prop := ∀ e ∈ s.expressions, e.StepsIn s.dependencies.steps

/-- The same expressions are kept, and no dependency is lost. -/
structure Extends (s s' : Step) : Prop where
  deferred : s'.deferred = s.deferred
  forEach : s'.forEach = s.forEach
  steps : ∀ t ∈ s.dependencies.steps, t ∈ s'.dependencies.steps

theorem Gathered.mono (h : s.Gathered) (ext : s.Extends s') : s'.Gathered := by
  intro e he
  rw [expressions, ext.deferred, ext.forEach] at he
  exact (h e he).mono ext.steps

theorem Gathered.defer (h : s.Gathered) (name : String) {e : Expression}
    (he : e.StepsIn s.dependencies.steps) : (s.defer name e).Gathered := by
  intro e' hm
  rcases List.mem_append.1 hm with hm | hm
  · obtain ⟨entry, hd, rfl⟩ := List.mem_map.1 hm
    rcases Dict.mem_insert hd with rfl | hd
    · exact he
    · exact h _ (List.mem_append_left _ (List.mem_map_of_mem hd))
  · exact h _ (List.mem_append_right _ hm)

theorem Gathered.repeated (h : s.Gathered) {e : Expression}
    (he : e.StepsIn s.dependencies.steps) : { s with forEach := some e }.Gathered := by
  intro e' hm
  rcases List.mem_append.1 hm with hm | hm
  · exact h _ (List.mem_append_left _ hm)
  · rw [List.mem_singleton.1 hm]
    exact he

/-- A step does not wait for itself, but its expressions may refer to it. -/
theorem Gathered.removeStep (h : s.Gathered) : ∀ e ∈ s.expressions,
    e.StepsIn (s.fullName :: (s.dependencies.removeStep s.fullName).steps) := by
  intro e he
  refine (h e he).mono fun t ht => List.mem_cons.2 ?_
  by_cases ht' : t = s.fullName
  · exact .inl ht'
  · exact .inr (List.mem_filter.2 ⟨ht, by simpa using ht'⟩)

theorem Extends.of_eq (deferred : s'.deferred = s.deferred) (forEach : s'.forEach = s.forEach)
    (dependencies : s'.dependencies = s.dependencies) : s.Extends s' :=
  ⟨deferred, forEach, fun t ht => by rwa [dependencies]⟩

theorem Extends.of_merge {d : DependencySet} (deferred : s'.deferred = s.deferred)
    (forEach : s'.forEach = s.forEach) (dependencies : s'.dependencies = s.dependencies.merge d) :
    s.Extends s' :=
  ⟨deferred, forEach, fun t ht => by
    rw [dependencies]
    exact DependencySet.mem_foldl_push.2 (.inl ht)⟩

theorem extends_refl (s : Step) : s.Extends s := .of_eq rfl rfl rfl

theorem extends_depending (s : Step) (d : DependencySet) : s.Extends (s.depending d) :=
  .of_merge rfl rfl rfl

theorem mem_depending {d : DependencySet} {t : String} (ht : t ∈ d.steps) :
    t ∈ (s.depending d).dependencies.steps :=
  DependencySet.mem_foldl_push.2 (.inr ht)

theorem extends_addEntry (location : Location) (s : Step) (entry : Value) :
    s.Extends (addEntry location s entry).1 := by
  unfold addEntry
  split
  · rename_i edge _
    refine ⟨rfl, rfl, fun t ht => ?_⟩
    cases h : edge.kind
    · simpa only [DependencySet.add, h] using DependencySet.mem_push.2 (.inl ht)
    · simpa only [DependencySet.add, h] using ht
  · exact extends_refl s

theorem Extends.trans {s'' : Step} (h : s.Extends s') (h' : s'.Extends s'') : s.Extends s'' :=
  ⟨h'.deferred.trans h.deferred, h'.forEach.trans h.forEach, fun t ht => h'.steps t (h.steps t ht)⟩

theorem extends_addEntries (location : Location) (s : Step) (entries : List Value) :
    s.Extends (Diagnostics.gather (addEntry location) s entries).1 := by
  induction entries generalizing s with
  | nil => exact extends_refl s
  | cons entry entries ih => exact (extends_addEntry location s entry).trans (ih _)

theorem extends_storeCommon (s : Step) (name : String) (v : Value) (location : Location) :
    s.Extends (s.storeCommon name v location).1 := by
  unfold storeCommon
  split
  · exact .of_eq rfl rfl rfl
  · exact extends_refl s
  · exact extends_addEntries location s _
  · split
    · obtain ⟨_, _, _, rfl⟩ := eq_of_set_commonFields ‹_›
      exact .of_eq rfl rfl rfl
    · exact extends_refl s

theorem gathered_setCommon (free : ctx.environment.binds "step" = false) (a : Attribute)
    (h : s.Gathered) (accepted : (s.setCommon a ctx).2.hasErrors = false) :
    (s.setCommon a ctx).1.Gathered := by
  have hd := h.mono (extends_depending s (a.resolve ctx).dependencies)
  rcases a.expression.resolve_stepsIn a.location free with ⟨ds, hf, he⟩ | hin
  · simp only [setCommon, Attribute.resolve, hf] at accepted
    rw [accepted] at he
    cases he
  · replace hin := hin.mono fun t ht => mem_depending (s := s) ht
    -- The collection is kept whatever becomes of it.
    have hr : Gathered (if a.name == "for_each"
        then { s.depending (a.resolve ctx).dependencies with forEach := some a.expression }
        else s.depending (a.resolve ctx).dependencies) := by
      split
      · exact hd.repeated hin
      · exact hd
    unfold setCommon
    dsimp only
    split
    · exact hr.mono (extends_storeCommon _ _ _ _)
    · split
      · exact hr
      · rename_i hn
        have hne : ¬(a.name == "for_each") = true := fun hc => hn (by simp [hc])
        rw [if_neg hne] at hr ⊢
        exact hr.defer _ hin
    · exact hr

theorem gathered_setOfKind (free : ctx.environment.binds "step" = false) (name : String)
    (a : Attribute) (h : s.Gathered) (accepted : (s.setOfKind name a ctx).2.hasErrors = false) :
    (s.setOfKind name a ctx).1.Gathered := by
  have hd := h.mono (extends_depending s (a.resolve ctx).dependencies)
  rcases a.expression.resolve_stepsIn a.location free with ⟨ds, hf, he⟩ | hin
  · simp only [setOfKind, Attribute.resolve, hf] at accepted
    rw [accepted] at he
    cases he
  · unfold setOfKind
    dsimp only
    split
    · split
      · exact hd.mono (.of_eq rfl rfl rfl)
      · exact hd
    · exact hd.defer _ (hin.mono fun t ht => mem_depending ht)
    · exact hd

theorem gathered_setAttribute (free : ctx.environment.binds "step" = false) (s : Step)
    (a : Attribute) (h : s.Gathered) (accepted : (setAttribute ctx s a).2.hasErrors = false) :
    (setAttribute ctx s a).1.Gathered := by
  unfold setAttribute at accepted ⊢
  split at accepted
  · rename_i hc
    rw [if_pos hc]
    exact gathered_setCommon free a h accepted
  · rename_i hc
    rw [if_neg hc]
    split at accepted
    · rename_i hk
      rw [if_pos hk]
      exact gathered_setOfKind free a.name a h accepted
    · rename_i hk
      rwa [if_neg hk]

theorem gathered_setInner (free : ctx.environment.binds "step" = false) (b : Block) (s : Step)
    (a : Attribute) (h : s.Gathered) (accepted : (setInner ctx b s a).2.hasErrors = false) :
    (setInner ctx b s a).1.Gathered := by
  unfold setInner at accepted ⊢
  dsimp only at accepted ⊢
  split at accepted
  · rename_i hk
    rw [if_pos hk]
    exact gathered_setOfKind free _ a h accepted
  · rename_i hk
    rwa [if_neg hk]

theorem gathered_setKindBlock (free : ctx.environment.binds "step" = false) (b : Block)
    (h : s.Gathered) (accepted : (s.setKindBlock b ctx).2.hasErrors = false) :
    (s.setKindBlock b ctx).1.Gathered := by
  simp only [setKindBlock, Diagnostics.hasErrors_append, Bool.or_eq_false_iff] at accepted
  exact Diagnostics.gather_preserves (gathered_setInner free b) b.attributes
    (h.mono (.of_eq rfl rfl rfl)) accepted.1

theorem gathered_setPolicy {α : Type} (b : Block) (r : Resolution α) {put : α → Step → Step}
    (hput : ∀ p s, Extends s (put p s)) (h : s.Gathered) : (s.setPolicy b r put).1.Gathered := by
  have hd := h.mono (extends_depending s r.dependencies)
  unfold setPolicy
  dsimp only
  split
  · exact hd.mono (hput _ _)
  · exact hd.mono (.of_eq rfl rfl rfl)
  · exact hd

theorem gathered_setBlock (free : ctx.environment.binds "step" = false) (b : Block)
    (h : s.Gathered) (accepted : (s.setBlock b ctx).2.hasErrors = false) :
    (s.setBlock b ctx).1.Gathered := by
  unfold setBlock at accepted ⊢
  split
  · unfold setLoop
    split
    · exact h.mono (.of_merge rfl rfl rfl)
    · exact h
  · exact gathered_setPolicy b _ (fun p s => .of_eq rfl rfl rfl) h
  · exact gathered_setPolicy b _ (fun p s => .of_eq rfl rfl rfl) h
  · unfold addThrow
    split
    · exact h.mono (.of_merge rfl rfl rfl)
    · exact h
  · unfold addOutput
    split
    · split
      · exact h
      · exact h.mono (.of_merge rfl rfl rfl)
    · exact h
  · split
    · rename_i hk
      simp only [if_pos hk] at accepted
      exact gathered_setKindBlock free b h accepted
    · exact h

theorem gathered_setBlockOnce (free : ctx.environment.binds "step" = false)
    (state : Step × List String) (b : Block) (h : state.1.Gathered)
    (accepted : (setBlockOnce ctx state b).2.hasErrors = false) :
    (setBlockOnce ctx state b).1.1.Gathered := by
  unfold setBlockOnce at accepted ⊢
  dsimp only at accepted ⊢
  split
  · exact h
  · rename_i hc
    rw [if_neg hc] at accepted
    exact gathered_setBlock free b h accepted

/-- A reference to another step that an accepted step evaluates at run time is a dependency. -/
theorem ofBlock_stepsIn {b : Block} {pipeline : String}
    (free : ctx.environment.binds "step" = false)
    (accepted : ofBlock b pipeline ctx = .ok s) :
    ∀ e ∈ s.expressions, e.StepsIn (s.fullName :: s.dependencies.steps) := by
  unfold ofBlock at accepted
  split at accepted
  · split at accepted
    · cases accepted
    · rename_i name _ _ kind _
      dsimp only at accepted
      obtain ⟨hds, rfl⟩ := Diagnostics.orValue_eq_ok.1 accepted
      simp only [Diagnostics.hasErrors_append, Bool.or_eq_false_iff] at hds
      have empty : Gathered { ofKind kind name pipeline with location := b.location } :=
        fun e he => nomatch he
      have attributes := Diagnostics.gather_preserves (gathered_setAttribute free) b.attributes
        empty hds.1.1
      have blocks := Diagnostics.gather_preserves (I := fun state => state.1.Gathered)
        (gathered_setBlockOnce free) b.blocks (s := (_, [])) attributes hds.1.2
      exact Gathered.removeStep blocks
  · cases accepted

end Step
end PipelineResolution
