import Mathlib.Data.List.Forall2
import PipelineResolution.Proofs.Pipeline.Plan
import PipelineResolution.Proofs.Step.Edges

/-!
# Decoded pipelines can be scheduled

A decoded pipeline holds the steps of its block in order, under distinct names, and declares all that
they and its outputs wait for. So it has a plan, and what a step refers to has run before it.
-/
namespace PipelineResolution

theorem exists_of_forall₂ {α β : Type} {R : α → β → Prop} {as : List α} {bs : List β}
    (h : List.Forall₂ R as bs) {b : β} (hb : b ∈ bs) : ∃ a ∈ as, R a b := by
  induction h with
  | nil => cases hb
  | cons hab _ ih =>
    rcases List.mem_cons.1 hb with rfl | hb
    · exact ⟨_, List.mem_cons_self, hab⟩
    · obtain ⟨a, ha, hr⟩ := ih hb
      exact ⟨a, List.mem_cons_of_mem _ ha, hr⟩

theorem Step.hasErrors_of_ofBlock {b : Block} {pipeline : String} {ctx : ResolutionContext}
    {ds : Diagnostics} (h : ofBlock b pipeline ctx = .error ds) : ds.hasErrors = true := by
  unfold ofBlock at h
  split at h
  · split at h
    · cases h
      rfl
    · exact Diagnostics.hasErrors_of_orValue h
  · cases h
    rfl

namespace Pipeline
variable {p p' : Pipeline} {ctx : ResolutionContext}

/-- The names of the params and outputs are distinct, and those of the steps too. -/
structure NamesDistinct (p : Pipeline) : Prop where
  params : (p.params.map Param.name).Nodup
  steps : p.Distinct
  outputs : (p.outputs.map NamedOutput.name).Nodup

/-- A pipeline that has taken up the steps of some blocks under its name. -/
structure Extends (p p' : Pipeline) (bs : List Block) (ctx : ResolutionContext) : Prop where
  name : p'.name = p.name
  steps : ∃ steps, p'.steps = p.steps ++ steps ∧
    List.Forall₂ (fun b s => Step.ofBlock b p.name ctx = .ok s) bs steps
  distinct : p.NamesDistinct → p'.NamesDistinct

theorem Extends.of_eq (name : p'.name = p.name) (params : p'.params = p.params)
    (steps : p'.steps = p.steps) (outputs : p'.outputs = p.outputs) : p.Extends p' [] ctx :=
  ⟨name, ⟨[], by simp [steps], .nil⟩, fun h =>
    ⟨by rw [params]; exact h.params, by rw [Distinct, steps]; exact h.steps,
      by rw [outputs]; exact h.outputs⟩⟩

theorem Extends.trans {p'' : Pipeline} {bs cs : List Block} (h : p.Extends p' bs ctx)
    (h' : p'.Extends p'' cs ctx) : p.Extends p'' (bs ++ cs) ctx := by
  obtain ⟨steps, hs, decoded⟩ := h.steps
  obtain ⟨more, hm, decoded'⟩ := h'.steps
  refine ⟨h'.name.trans h.name, ⟨steps ++ more, by rw [hm, hs, List.append_assoc], ?_⟩,
    fun hd => h'.distinct (h.distinct hd)⟩
  rw [h.name] at decoded'
  exact List.rel_append decoded decoded'

theorem extends_setAttribute (p : Pipeline) (a : Attribute) :
    p.Extends (setAttribute ctx p a).1 [] ctx := by
  unfold setAttribute
  dsimp only
  split
  · split <;> exact .of_eq rfl rfl rfl rfl
  · split <;> exact .of_eq rfl rfl rfl rfl
  · exact .of_eq rfl rfl rfl rfl

theorem declare_cases {α : Type} {what : String} {b : Block} {decoded : Except Diagnostics α}
    {name : α → String} {taken : String → Bool} {add : α → Pipeline}
    (accepted : (p.declare what b decoded name taken add).2.hasErrors = false) :
    (∃ a, decoded = .ok a ∧ taken (name a) = false ∧
      (p.declare what b decoded name taken add).1 = add a) ∨
    ∃ ds, decoded = .error ds ∧ ds.hasErrors = false ∧
      (p.declare what b decoded name taken add).1 = p := by
  unfold declare at accepted ⊢
  cases decoded with
  | ok a =>
    dsimp only at accepted ⊢
    split
    · rename_i ht
      rw [if_pos ht] at accepted
      cases accepted
    · exact .inl ⟨a, rfl, Bool.eq_false_iff.2 ‹_›, rfl⟩
  | error ds => exact .inr ⟨ds, rfl, accepted, rfl⟩

theorem extends_addBlock (p : Pipeline) (b : Block)
    (accepted : (addBlock ctx p b).2.hasErrors = false) :
    p.Extends (addBlock ctx p b).1 ([b].filter (·.type == "step")) ctx := by
  unfold addBlock at accepted ⊢
  split at accepted
  · rename_i ht
    rw [List.filter_cons_of_neg (by simp [ht]), List.filter_nil]
    rcases declare_cases accepted with ⟨a, -, free, he⟩ | ⟨ds, -, -, he⟩
    · rw [he]
      refine ⟨rfl, ⟨[], by simp, .nil⟩, fun h => ⟨nodup_names_append h.params free, h.steps, h.outputs⟩⟩
    · rw [he]
      exact .of_eq rfl rfl rfl rfl
  · rename_i ht
    rw [List.filter_cons_of_pos (by simp [ht]), List.filter_nil]
    rcases declare_cases accepted with ⟨s, hs, free, he⟩ | ⟨ds, hds, hn, -⟩
    · rw [he]
      refine ⟨rfl, ⟨[s], rfl, .cons hs .nil⟩, fun h => ⟨h.params, distinct_addStep h.steps free, h.outputs⟩⟩
    · rw [Step.hasErrors_of_ofBlock hds] at hn
      cases hn
  · rename_i ht
    rw [List.filter_cons_of_neg (by simp [ht]), List.filter_nil]
    rcases declare_cases accepted with ⟨a, -, free, he⟩ | ⟨ds, -, -, he⟩
    · rw [he]
      refine ⟨rfl, ⟨[], by simp, .nil⟩, fun h => ⟨h.params, h.steps, nodup_names_append h.outputs free⟩⟩
    · rw [he]
      exact .of_eq rfl rfl rfl rfl
  · cases accepted

theorem extends_addBlocks (p : Pipeline) (bs : List Block)
    (accepted : (Diagnostics.gather (addBlock ctx) p bs).2.hasErrors = false) :
    p.Extends (Diagnostics.gather (addBlock ctx) p bs).1 (bs.filter (·.type == "step")) ctx := by
  induction bs generalizing p with
  | nil => exact .of_eq rfl rfl rfl rfl
  | cons b bs ih =>
    simp only [Diagnostics.gather, Diagnostics.hasErrors_append, Bool.or_eq_false_iff] at accepted
    rw [← List.singleton_append, List.filter_append]
    exact (extends_addBlock p b accepted.1).trans (ih _ accepted.2)

theorem extends_setAttributes (p : Pipeline) (as : List Attribute) :
    p.Extends (Diagnostics.gather (setAttribute ctx) p as).1 [] ctx := by
  induction as generalizing p with
  | nil => exact .of_eq rfl rfl rfl rfl
  | cons a as ih => exact (extends_setAttribute p a).trans (ih _)

theorem declared_of_unknownSteps {owner : String} {location : Location} {d : DependencySet}
    (h : (p.unknownSteps owner location d).hasErrors = false) :
    ∀ target ∈ d.steps, Plan.Declared p.steps target := by
  intro target ht
  cases hs : p.step? target with
  | some s =>
    exact ⟨s, List.mem_of_find?_eq_some hs, by simpa using List.find?_some hs⟩
  | none =>
    have unknown : target ∈ d.steps.filter fun target => (p.step? target).isNone :=
      List.mem_filter.2 ⟨ht, by simp [hs]⟩
    rw [Diagnostics.hasErrors, unknownSteps, List.any_map] at h
    exact absurd rfl (List.any_eq_false.1 h target unknown)

/-- A decoded pipeline grows from an empty one, and its dependencies pass all checks. -/
theorem exists_of_ofBlock {b : Block} (h : ofBlock b ctx = .ok p) :
    ∃ name, b.label? 0 = some name ∧
      Extends { name, location := b.location } p (b.blocksOfType "step") ctx ∧
      p.checkDependencies.hasErrors = false ∧ p.checkCycle.hasErrors = false := by
  unfold ofBlock at h
  split at h
  · cases h
  · rename_i name label
    dsimp only at h
    split at h
    · cases h
    · rename_i accepted
      obtain ⟨checked, rfl⟩ := Diagnostics.orValue_eq_ok.1 h
      rw [Bool.not_eq_true] at accepted
      simp only [Diagnostics.hasErrors_append, Bool.or_eq_false_iff] at accepted checked
      exact ⟨name, label, (extends_setAttributes _ b.attributes).trans
        (extends_addBlocks _ b.blocks accepted.2), checked.1.2, checked.2⟩

/-- Without a report on a cycle there is a plan. -/
theorem isPlan_of_checkCycle (distinct : p.Distinct) (declared : Plan.AllDeclared p.steps)
    (checked : p.checkCycle.hasErrors = false) :
    ∃ waves, p.plan = .ok waves ∧ Plan.IsPlan p.steps waves := by
  rcases Plan.waves_of_declared distinct declared with ⟨-, planned⟩ | ⟨-, s, -, cycle⟩
  · exact planned
  · simp only [checkCycle, plan, cycle] at checked
    cases checked

/-- What a decoded pipeline promises to a scheduler. The block is the one it was decoded from. -/
structure Schedulable (p : Pipeline) (b : Block) (ctx : ResolutionContext) : Prop where
  decoded : List.Forall₂ (fun inner s => Step.ofBlock inner p.name ctx = .ok s)
    (b.blocksOfType "step") p.steps
  distinct : p.NamesDistinct
  irreflexive : ∀ s ∈ p.steps, s.fullName ∉ s.dependencies.steps
  declared : Plan.AllDeclared p.steps
  outputsDeclared : ∀ o ∈ p.outputs, ∀ target ∈ o.dependencies.steps, Plan.Declared p.steps target
  /-- Every step a step refers to is the step itself or has run before it. -/
  planned : ∃ waves, p.plan = .ok waves ∧ Plan.IsPlan p.steps waves ∧
    ∀ (i : Nat) (w : List Step), waves[i]? = some w → ∀ s ∈ w, ∀ inner ∈ b.blocksOfType "step",
      Step.ofBlock inner p.name ctx = .ok s →
      ∀ e ∈ inner.stepExpressions, ∀ r ∈ e.referencesTo "step",
        3 ≤ r.segmentCount ∧ (r.target = s.fullName ∨
          ∃ j w', waves[j]? = some w' ∧ j < i ∧ ∃ t ∈ w', t.fullName = r.target)

theorem schedulable_of_ofBlock {b : Block} (free : ctx.environment.binds "step" = false)
    (free' : ctx.environment.binds "credential" = false) (h : ofBlock b ctx = .ok p) :
    b.label? 0 = some p.name ∧ p.Schedulable b ctx := by
  obtain ⟨name, label, grown, declares, acyclic⟩ := exists_of_ofBlock h
  have hname : p.name = name := grown.name
  obtain ⟨steps, hsteps, decoded⟩ := grown.steps
  rw [List.nil_append] at hsteps
  rw [← hname, ← hsteps] at decoded
  have distinct := grown.distinct ⟨List.nodup_nil, List.nodup_nil, List.nodup_nil⟩
  simp only [checkDependencies, Diagnostics.hasErrors_append, Bool.or_eq_false_iff] at declares
  have declared : Plan.AllDeclared p.steps := fun s hs =>
    declared_of_unknownSteps (Diagnostics.hasErrors_flatMap_eq_false.1 declares.1 s hs)
  obtain ⟨waves, planned, isPlan⟩ := isPlan_of_checkCycle distinct.steps declared acyclic
  refine ⟨hname ▸ label, decoded, distinct, fun s hs own => ?_, declared, fun o ho =>
    declared_of_unknownSteps (Diagnostics.hasErrors_flatMap_eq_false.1 declares.2 o ho),
    waves, planned, isPlan, fun i w hw s hsw inner _ accepted e he r hr => ?_⟩
  · obtain ⟨inner, -, accepted⟩ := exists_of_forall₂ decoded hs
    have edges := (Step.dependencies_ofBlock free free' accepted).2 ⟨.step, s.fullName⟩
    exact (edges.1 own).1 rfl
  · obtain ⟨addressed, edges⟩ := Step.dependencies_ofBlock free free' accepted
    refine ⟨(addressed e he).steps r hr, or_iff_not_imp_left.2 fun other => ?_⟩
    have edge : ⟨.step, r.target⟩ ∈ e.edges :=
      List.mem_append_left _ (List.mem_map.2 ⟨r, hr, rfl⟩)
    have waits : r.target ∈ s.dependencies.steps :=
      (edges ⟨.step, r.target⟩).2 ⟨fun own => other (congrArg Edge.target own), .inl ⟨e, he, edge⟩⟩
    have hs : s ∈ p.steps := isPlan.perm.mem_iff.1 (List.mem_flatten.2 ⟨w, List.mem_of_getElem? hw, hsw⟩)
    obtain ⟨t, ht, name⟩ := declared s hs r.target waits
    obtain ⟨j, w', hj, htw, hlt⟩ := isPlan.earlier hw hsw ⟨hs, ht, name ▸ waits⟩
    exact ⟨j, w', hj, hlt, t, htw, name⟩

end Pipeline
end PipelineResolution
