import PipelineResolution.Proofs.Step.Edges

/-!
# The dependencies of a step are exact

Decoding only ever merges and adds to the dependencies, so no target is listed twice. The steps and
credentials that an accepted step waits for are those that its block refers to or lists, and nothing
else: each reference names one target, and so does each entry of a `depends_on` attribute.
-/
namespace PipelineResolution

/-- A reference `step.<kind>.<name>`, which may go on, names a step. -/
def Reference.NamesStep (r : Reference) (target : String) : Prop :=
  ∃ kind name rest, r = ⟨"step", kind :: name :: rest⟩ ∧ target = kind ++ "." ++ name

/-- A reference `credential.<kind>.<name>`, which may go on, names a credential; with the kind alone
it names one that is chosen at run time. -/
def Reference.NamesCredential (r : Reference) (target : String) : Prop :=
  (∃ kind name rest, r = ⟨"credential", kind :: name :: rest⟩ ∧ target = kind ++ "." ++ name) ∨
    ∃ kind, r = ⟨"credential", [kind]⟩ ∧ target = kind ++ "." ++ "<dynamic>"

/-- An attribute that lists a text among the dependencies of its step when the document is read. -/
def Attribute.Lists (ctx : ResolutionContext) (a : Attribute) (text : String) : Prop :=
  a.name = "depends_on" ∧
    ∃ v, (a.resolve ctx).outcome = .resolved v ∧ Value.string text ∈ Step.entriesOf v

namespace Expression
variable {e : Expression} {target : String}

theorem mem_edges {kind : EdgeKind} : (⟨kind, target⟩ : Edge) ∈ e.edges ↔
    ∃ r ∈ e.referencesTo kind.root, r.target = target := by
  have step : e.edgesTo "step" = (e.referencesTo "step").map fun r => ⟨.step, r.target⟩ :=
    if_pos rfl
  have credential : e.edgesTo "credential" =
      (e.referencesTo "credential").map fun r => ⟨.credential, r.target⟩ := by
    rw [edgesTo, if_neg (by decide), if_pos rfl]
  rw [edges, List.mem_append, step, credential]
  cases kind <;> simp [EdgeKind.root]

theorem mem_edges_step (h : e.Addressed) :
    (⟨.step, target⟩ : Edge) ∈ e.edges ↔ ∃ r ∈ e.references, r.NamesStep target := by
  rw [mem_edges]
  constructor
  · rintro ⟨r, hr, rfl⟩
    have long := h.steps r hr
    obtain ⟨hm, root⟩ := List.mem_filter.1 hr
    obtain ⟨_, path⟩ := r
    obtain rfl := beq_iff_eq.1 root
    match path with
    | [] | [_] => exact absurd long (by simp [Reference.segmentCount])
    | kind :: name :: rest => exact ⟨_, hm, kind, name, rest, rfl, rfl⟩
  · rintro ⟨r, hm, kind, name, rest, rfl, rfl⟩
    exact ⟨_, List.mem_filter.2 ⟨hm, rfl⟩, rfl⟩

theorem mem_edges_credential (h : e.Addressed) :
    (⟨.credential, target⟩ : Edge) ∈ e.edges ↔ ∃ r ∈ e.references, r.NamesCredential target := by
  rw [mem_edges]
  constructor
  · rintro ⟨r, hr, rfl⟩
    have long := h.credentials r hr
    obtain ⟨hm, root⟩ := List.mem_filter.1 hr
    obtain ⟨_, path⟩ := r
    obtain rfl := beq_iff_eq.1 root
    match path with
    | [] => exact absurd long (by simp [Reference.segmentCount])
    | [kind] => exact ⟨_, hm, .inr ⟨kind, rfl, rfl⟩⟩
    | kind :: name :: rest => exact ⟨_, hm, .inl ⟨kind, name, rest, rfl, rfl⟩⟩
  · rintro ⟨r, hm, ⟨kind, name, rest, rfl, rfl⟩ | ⟨kind, rfl, rfl⟩⟩
    · exact ⟨_, List.mem_filter.2 ⟨hm, rfl⟩, rfl⟩
    · exact ⟨_, List.mem_filter.2 ⟨hm, rfl⟩, rfl⟩

end Expression

/-- A list is gone through without an error only if each of its elements is taken in without one. -/
theorem Diagnostics.exists_of_gather {σ α : Type} {f : σ → α → σ × Diagnostics} {as : List α}
    {s : σ} (accepted : (gather f s as).2.hasErrors = false) :
    ∀ a ∈ as, ∃ s', (f s' a).2.hasErrors = false := by
  induction as generalizing s with
  | nil => exact fun _ h => nomatch h
  | cons a as ih =>
    simp only [gather, hasErrors_append, Bool.or_eq_false_iff] at accepted
    exact List.forall_mem_cons.2 ⟨⟨s, accepted.1⟩, ih accepted.2⟩

theorem Diagnostics.gather_keeps {σ α : Type} {I : σ → Prop} {f : σ → α → σ × Diagnostics}
    (step : ∀ s a, I s → I (f s a).1) (as : List α) {s : σ} (h : I s) : I (gather f s as).1 := by
  induction as generalizing s with
  | nil => exact h
  | cons a as ih => exact ih (step s a h)

/-- What every element keeps and one of them brings about holds at the end of a list. -/
theorem Diagnostics.gather_reaches {σ α : Type} {I : σ → Prop} {f : σ → α → σ × Diagnostics}
    (keeps : ∀ s a, I s → I (f s a).1) {a : α}
    (reach : ∀ s, (f s a).2.hasErrors = false → I (f s a).1) {as : List α} (ha : a ∈ as) {s : σ}
    (accepted : (gather f s as).2.hasErrors = false) : I (gather f s as).1 := by
  induction as generalizing s with
  | nil => nomatch ha
  | cons first as ih =>
    simp only [gather, hasErrors_append, Bool.or_eq_false_iff] at accepted
    rcases List.mem_cons.1 ha with rfl | ha
    · exact gather_keeps keeps as (reach s accepted.1)
    · exact ih ha accepted.2

namespace Step
variable {s : Step} {ctx : ResolutionContext}

/-- The target that an entry of a `depends_on` attribute names: its text, without the root that may
stand before it. -/
def targetOfText (text : String) : String := (Text.dropStart? "step." text).getD text

theorem target_of_edgeOfText? {text : String} {edge : Edge} (h : edgeOfText? text = some edge) :
    edge = ⟨.step, targetOfText text⟩ := by
  obtain ⟨⟨kind, name⟩, hc, h⟩ := Option.bind_eq_some_iff.1 h
  dsimp only at h
  split at h
  · obtain rfl := Option.some.inj h
    rw [targetOfText, Text.eq_of_cut hc]
    rfl
  · cases h

/-- Whatever an attribute of an accepted step lists is a text that names a step. -/
theorem listed_of_setAttributes {b : Block} {a : Attribute} {v entry : Value}
    (accepted : (s.setAttributes b ctx).2.hasErrors = false) (ha : a ∈ b.attributes)
    (name : a.name = "depends_on") (resolved : (a.resolve ctx).outcome = .resolved v)
    (he : entry ∈ entriesOf v) :
    ∃ text, entry = .string text ∧ edgeOfText? text = some ⟨.step, targetOfText text⟩ := by
  obtain ⟨s', stored⟩ := Diagnostics.exists_of_gather accepted a ha
  rw [setAttribute, if_pos (by rw [name]; decide), setCommon] at stored
  simp only [resolved, name] at stored
  obtain ⟨s'', added⟩ := Diagnostics.exists_of_gather stored entry he
  unfold addEntry at added
  split at added
  · rename_i edge hedge
    obtain ⟨text, ht, hedge⟩ := Option.bind_eq_some_iff.1 hedge
    refine ⟨text, ?_, target_of_edgeOfText? hedge ▸ hedge⟩
    cases entry <;> cases ht
    rfl
  · cases added

/-- What merging and adding preserve. -/
structure Grows (I : DependencySet → Prop) : Prop where
  merge : ∀ d other, I d → I (d.merge other)
  add : ∀ d edge, I d → I (d.add edge)

namespace Grows
variable {I : DependencySet → Prop} (grows : Grows I)
include grows

theorem addEntry (location : Location) (s : Step) (entry : Value) (h : I s.dependencies) :
    I (Step.addEntry location s entry).1.dependencies := by
  unfold Step.addEntry
  split
  · exact grows.add _ _ h
  · exact h

theorem storeCommon (name : String) (v : Value) (location : Location) (h : I s.dependencies) :
    I (s.storeCommon name v location).1.dependencies := by
  unfold Step.storeCommon
  split
  · exact h
  · exact h
  · exact Diagnostics.gather_keeps (grows.addEntry location) _ h
  · split
    · obtain ⟨_, _, _, rfl⟩ := eq_of_set_commonFields ‹_›
      exact h
    · exact h

theorem setCommon_of_depending (a : Attribute)
    (merged : I (s.depending (a.resolve ctx).dependencies).dependencies) :
    I (s.setCommon a ctx).1.dependencies := by
  have repeated : I (if a.name == "for_each"
      then { s.depending (a.resolve ctx).dependencies with forEach := some a.expression }
      else s.depending (a.resolve ctx).dependencies).dependencies := by
    split <;> exact merged
  unfold Step.setCommon
  dsimp only
  split
  · exact grows.storeCommon _ _ _ repeated
  · split <;> exact repeated
  · exact repeated

theorem setCommon (a : Attribute) (h : I s.dependencies) : I (s.setCommon a ctx).1.dependencies :=
  grows.setCommon_of_depending a (grows.merge _ _ h)

theorem setOfKind (name : String) (a : Attribute) (h : I s.dependencies) :
    I (s.setOfKind name a ctx).1.dependencies := by
  have merged := grows.merge _ (a.resolve ctx).dependencies h
  unfold Step.setOfKind
  dsimp only
  split
  · split <;> exact merged
  · exact merged
  · exact merged

theorem setAttribute (s : Step) (a : Attribute) (h : I s.dependencies) :
    I (Step.setAttribute ctx s a).1.dependencies := by
  unfold Step.setAttribute
  split
  · exact grows.setCommon a h
  · split
    · exact grows.setOfKind a.name a h
    · exact h

theorem setInner (b : Block) (s : Step) (a : Attribute) (h : I s.dependencies) :
    I (Step.setInner ctx b s a).1.dependencies := by
  unfold Step.setInner
  dsimp only
  split
  · exact grows.setOfKind _ a h
  · exact h

theorem setPolicy {α : Type} (b : Block) (r : Resolution α) {put : α → Step → Step}
    (hput : ∀ p s, (put p s).dependencies = s.dependencies) (h : I s.dependencies) :
    I (s.setPolicy b r put).1.dependencies := by
  have merged := grows.merge _ r.dependencies h
  unfold Step.setPolicy
  dsimp only
  split
  · rw [hput]
    exact merged
  · exact merged
  · exact merged

theorem setBlock (b : Block) (h : I s.dependencies) : I (s.setBlock b ctx).1.dependencies := by
  unfold Step.setBlock
  split
  · unfold setLoop
    split
    · exact grows.merge _ _ h
    · exact h
  · exact grows.setPolicy b _ (fun _ _ => rfl) h
  · exact grows.setPolicy b _ (fun _ _ => rfl) h
  · unfold addThrow
    split
    · exact grows.merge _ _ h
    · exact h
  · unfold addOutput
    split
    · split
      · exact h
      · exact grows.merge _ _ h
    · exact h
  · split
    · exact Diagnostics.gather_keeps (I := fun s : Step => I s.dependencies) (grows.setInner b) _ h
    · exact h

theorem setBlockOnce (state : Step × List String) (b : Block) (h : I state.1.dependencies) :
    I (Step.setBlockOnce ctx state b).1.1.dependencies := by
  unfold Step.setBlockOnce
  dsimp only
  split
  · exact h
  · exact grows.setBlock b h

theorem setBlocks (b : Block) (h : I s.dependencies) : I (s.setBlocks b ctx).1.dependencies :=
  Diagnostics.gather_keeps (I := fun state : Step × List String => I state.1.dependencies)
    grows.setBlockOnce b.blocks (s := (s, [])) h

/-- What merging and adding preserve holds of everything that is taken in. -/
theorem takeIn (b : Block) (h : I s.dependencies) : I (s.takeIn b ctx).1.dependencies :=
  grows.setBlocks b <|
    Diagnostics.gather_keeps (I := fun s : Step => I s.dependencies) grows.setAttribute b.attributes h

end Grows

theorem grows_mem (edge : Edge) : Grows (edge ∈ ·) :=
  ⟨fun _ _ h => DependencySet.mem_merge.2 (.inl h), fun _ _ h => DependencySet.mem_add.2 (.inl h)⟩

theorem distinct_released (b : Block) (kind : StepKind) (name pipeline : String) :
    ((start b kind name pipeline).takeIn b ctx).1.released.dependencies.Distinct := by
  have grows : Grows DependencySet.Distinct := ⟨fun _ d h => h.merge d, fun _ edge h => h.add edge⟩
  exact (grows.takeIn b ⟨List.nodup_nil, List.nodup_nil⟩).removeStep _

theorem distinct_dependencies {b : Block} {pipeline : String}
    (accepted : ofBlock b pipeline ctx = .ok s) : s.dependencies.Distinct := by
  obtain ⟨word, name, kind, -, -, -, -, rfl⟩ := exists_of_ofBlock accepted
  exact distinct_released b kind name pipeline

/-- An edge that an attribute of an accepted step names is one that the attribute lists. -/
theorem mem_namedEdges {b : Block} {pipeline : String} (accepted : ofBlock b pipeline ctx = .ok s)
    {a : Attribute} (ha : a ∈ b.attributes) {edge : Edge} :
    edge ∈ a.namedEdges ctx ↔ ∃ text, a.Lists ctx text ∧ edge = ⟨.step, targetOfText text⟩ := by
  obtain ⟨word, name, kind, -, -, taken, -, -⟩ := exists_of_ofBlock accepted
  simp only [takeIn, Diagnostics.hasErrors_append, Bool.or_eq_false_iff] at taken
  unfold Attribute.namedEdges Attribute.Lists
  by_cases hn : a.name = "depends_on"
  · simp only [hn, if_true, true_and]
    cases ho : (a.resolve ctx).outcome with
    | resolved v =>
      constructor
      · intro he
        obtain ⟨entry, hm, he⟩ := List.mem_filterMap.1 he
        obtain ⟨text, rfl, -⟩ := listed_of_setAttributes taken.1 ha hn ho hm
        exact ⟨text, ⟨v, rfl, hm⟩, target_of_edgeOfText? he⟩
      · rintro ⟨text, ⟨w, hw, hm⟩, rfl⟩
        cases hw
        obtain ⟨text', ht, names⟩ := listed_of_setAttributes taken.1 ha hn ho hm
        cases ht
        exact List.mem_filterMap.2 ⟨_, hm, names⟩
    | deferred => simp
    | failed ds => simp
  · simp [hn]

/-- Where neither steps nor credentials are bound, an accepted step waits for the steps that its
block refers to or lists, without itself, and for the credentials that its block refers to, for each
of them once. -/
theorem dependencies_exact {b : Block} {pipeline : String}
    (free : ctx.environment.binds "step" = false)
    (free' : ctx.environment.binds "credential" = false)
    (accepted : ofBlock b pipeline ctx = .ok s) :
    s.dependencies.steps.Nodup ∧
      (∀ target, target ∈ s.dependencies.steps ↔ target ≠ s.fullName ∧
        ((∃ e ∈ b.stepExpressions, ∃ r ∈ e.references, r.NamesStep target) ∨
          ∃ a ∈ b.attributes, ∃ text, a.Lists ctx text ∧ target = targetOfText text)) ∧
      s.dependencies.credentials.Nodup ∧
      ∀ target, target ∈ s.dependencies.credentials ↔
        ∃ e ∈ b.stepExpressions, ∃ r ∈ e.references, r.NamesCredential target := by
  obtain ⟨addressed, edges⟩ := dependencies_ofBlock free free' accepted
  have distinct := distinct_dependencies accepted
  refine ⟨distinct.steps, fun target => ?_, distinct.credentials, fun target => ?_⟩
  · refine (edges ⟨.step, target⟩).trans (and_congr ?_ (or_congr ?_ ?_))
    · simp
    · exact exists_congr fun e => and_congr_right fun he =>
        Expression.mem_edges_step (addressed e he)
    · refine exists_congr fun a => and_congr_right fun ha => ?_
      rw [mem_namedEdges accepted ha]
      simp
  · refine (edges ⟨.credential, target⟩).trans ⟨?_, ?_⟩
    · rintro ⟨-, ⟨e, he, hm⟩ | ⟨a, ha, hm⟩⟩
      · exact ⟨e, he, (Expression.mem_edges_credential (addressed e he)).1 hm⟩
      · obtain ⟨text, -, heq⟩ := (mem_namedEdges accepted ha).1 hm
        cases heq
    · rintro ⟨e, he, hm⟩
      exact ⟨by simp, .inl ⟨e, he, (Expression.mem_edges_credential (addressed e he)).2 hm⟩⟩

/-- A step that refers to a step and a credential and lists another step and itself. -/
def referringBlock : Block where
  type := "step"
  labels := ["transform", "t"]
  attributes := [
    ⟨"value", .tuple [.term (.access (.variable "step") [.member "sleep", .member "a", .member "ok"]),
      .term (.access (.variable "credential") [.member "aws"])], default⟩,
    ⟨"depends_on", .literal (.list [.string "step.http.b", .string "transform.t"]), default⟩]
  blocks := []
  location := default
  diagnostics := []

/-- Both ways of naming a target count, and the step itself does not. -/
theorem dependencies_exact_referring :
    ∃ s, ofBlock referringBlock "p" ⟨.empty, {}, .plain, .brief⟩ = .ok s ∧
      s.dependencies = ⟨["sleep.a", "http.b"], ["aws.<dynamic>"]⟩ ∧
      (∀ target, target ∈ s.dependencies.steps ↔ target ≠ "transform.t" ∧
        ((∃ e ∈ referringBlock.stepExpressions, ∃ r ∈ e.references, r.NamesStep target) ∨
          ∃ a ∈ referringBlock.attributes, ∃ text,
            a.Lists ⟨.empty, {}, .plain, .brief⟩ text ∧ target = targetOfText text)) := by
  obtain ⟨s, accepted, found, name⟩ :
      ∃ s, ofBlock referringBlock "p" ⟨.empty, {}, .plain, .brief⟩ = .ok s ∧
        s.dependencies = ⟨["sleep.a", "http.b"], ["aws.<dynamic>"]⟩ ∧ s.fullName = "transform.t" := by
    decide
  exact ⟨s, accepted, found, name ▸ (dependencies_exact rfl rfl accepted).2.1⟩

end Step
end PipelineResolution
