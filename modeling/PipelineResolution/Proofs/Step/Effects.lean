import PipelineResolution.Proofs.Step.Reresolution

/-!
# The effects of attributes

Whether it is taken in or reported, an attribute does the same to all steps of a kind: it puts
something over the heading, writes to the settings, adds edges and leaves reports. What it says and
writes stands under its own name.
-/
namespace PipelineResolution

/-- A heading that says nothing but what a name stands for. -/
structure Heading.Under (name : String) (p : Heading) : Prop where
  title : name ≠ "title" → p.title = none
  description : name ≠ "description" → p.description = none
  timeout : name ≠ "timeout" → p.timeout = none
  condition : name ≠ "if" → p.condition = none
  forEach : name ≠ "for_each" → p.forEach = none

/-- A write of the value or the expression of a named attribute. -/
def Write.Under (name : String) : Write → Prop
  | declare .. => False
  | store n _ | keep n _ => n = name

theorem Heading.Under.empty (name : String) : Heading.Under name {} :=
  ⟨fun _ => rfl, fun _ => rfl, fun _ => rfl, fun _ => rfl, fun _ => rfl⟩

theorem Heading.Under.over {name : String} {p q : Heading} (hp : p.Under name) (hq : q.Under name) :
    (p.over q).Under name where
  title h := by rw [Heading.over, hp.title h, hq.title h]; rfl
  description h := by rw [Heading.over, hp.description h, hq.description h]; rfl
  timeout h := by rw [Heading.over, hp.timeout h, hq.timeout h]; rfl
  condition h := by rw [Heading.over, hp.condition h, hq.condition h]; rfl
  forEach h := by rw [Heading.over, hp.forEach h, hq.forEach h]; rfl

theorem Write.kind_run (ws : List Write) (x : Intake) : (Write.run ws x).spec.kind = x.spec.kind := by
  induction ws generalizing x with
  | nil => rfl
  | cons w ws ih => rw [run_cons, ih, kind_apply]

theorem Write.sorted_run (ws : List Write) {x : Intake} (sorted : x.deferred.Sorted) :
    (Write.run ws x).deferred.Sorted := by
  induction ws generalizing x with
  | nil => exact sorted
  | cons w ws ih => exact ih (sorted_apply w sorted)

/-- What is done to a step, and what is reported on it. -/
structure Effect where
  heading : Heading := {}
  writes : List Write := []
  edges : List Edge := []
  reports : Diagnostics := []

namespace Effect
variable {e f : Effect} {name : String}

def on (e : Effect) (s : Step) : Step :=
  (s.headed e.heading).taking (Write.run e.writes s.intake) (e.edges.foldl .add s.dependencies)

/-- One effect after the other. -/
def andThen (e f : Effect) : Effect :=
  ⟨f.heading.over e.heading, e.writes ++ f.writes, e.edges ++ f.edges, e.reports ++ f.reports⟩

/-- An effect on nothing but what a name stands for. -/
structure Under (name : String) (e : Effect) : Prop where
  heading : e.heading.Under name
  writes : ∀ w ∈ e.writes, w.Under name

theorem on_andThen (e f : Effect) (s : Step) : (e.andThen f).on s = f.on (e.on s) := by
  simp only [on, andThen, Write.run_append, List.foldl_append, ← Step.headed_headed]
  rfl

theorem kind_on (e : Effect) (s : Step) : (e.on s).kind = s.kind := Write.kind_run e.writes s.intake

theorem Under.andThen (he : e.Under name) (hf : f.Under name) : (e.andThen f).Under name :=
  ⟨hf.heading.over he.heading, List.forall_mem_append.2 ⟨he.writes, hf.writes⟩⟩

theorem under_of_heading {p : Heading} (hp : p.Under name) (edges : List Edge) (ds : Diagnostics) :
    Under name { heading := p, edges, reports := ds } :=
  ⟨hp, fun _ h => nomatch h⟩

theorem under_of_write {w : Write} (hw : w.Under name) (edges : List Edge) :
    Under name { writes := [w], edges } :=
  ⟨.empty name, List.forall_mem_singleton.2 hw⟩

end Effect

/-- A value is of the type of an attribute for all steps of a kind, or it is reported alike for all
of them. -/
theorem StepSpec.set_cases (kind : StepKind) (name : String) (v : Value) :
    (∀ s : StepSpec, s.kind = kind → s.set name v = .ok (s.store name v)) ∨
      ∃ m, ∀ s : StepSpec, s.kind = kind → s.set name v = .error m := by
  by_cases fits : kind.Fits name v
  · exact .inl fun s hk => StepSpec.set_eq_ok.2 ⟨hk ▸ fits, rfl⟩
  · simp only [StepKind.Fits, Addressing.Fits, not_forall] at fits
    obtain ⟨f, hf, misfit⟩ := fits
    cases hd : f.type.convert name v with
    | ok d => exact absurd ⟨d, hd⟩ misfit
    | error m =>
      refine .inr ⟨m, fun s hk => ?_⟩
      subst hk
      simp only [set, LawfulAddressing.set_eq, hf, hd]
      rfl

namespace Step
variable {kind : StepKind} {name : String} {ctx : ResolutionContext}

/-- A change that has one effect on all steps of a kind, under a name. -/
def Acts (kind : StepKind) (name : String) (F : Step → Step × Diagnostics) : Prop :=
  ∃ e : Effect, e.Under name ∧ ∀ s, s.kind = kind → F s = (e.on s, e.reports)

namespace Acts
variable {F G : Step → Step × Diagnostics} {P : Step → Step}

theorem reporting (ds : Diagnostics) : Acts kind name fun s => (s, ds) :=
  ⟨{ reports := ds }, Effect.under_of_heading (.empty name) [] ds, fun _ _ => rfl⟩

theorem congr (hF : Acts kind name F) (same : ∀ s, s.kind = kind → G s = F s) :
    Acts kind name G := by
  obtain ⟨e, under, acts⟩ := hF
  exact ⟨e, under, fun s hk => (same s hk).trans (acts s hk)⟩

/-- A change after one that reports nothing. -/
theorem comp (hF : Acts kind name F) (hP : Acts kind name fun s => (P s, [])) :
    Acts kind name fun s => F (P s) := by
  obtain ⟨f, hf, second⟩ := hF
  obtain ⟨e, he, first⟩ := hP
  have silent : [] = e.reports := congrArg Prod.snd (first (ofKind kind "" "") rfl)
  refine ⟨e.andThen f, he.andThen hf, fun s hk => ?_⟩
  have hs : P s = e.on s := congrArg Prod.fst (first s hk)
  calc F (P s)
    _ = (f.on (e.on s), f.reports) := by rw [hs, second _ ((e.kind_on s).trans hk)]
    _ = ((e.andThen f).on s, [] ++ f.reports) := by rw [Effect.on_andThen, List.nil_append]
    _ = ((e.andThen f).on s, (e.andThen f).reports) := by rw [silent]; rfl

theorem gather {α : Type} {f : Step → α → Step × Diagnostics} (h : ∀ a, Acts kind name (f · a))
    (as : List α) : Acts kind name (Diagnostics.gather f · as) := by
  induction as with
  | nil => exact reporting []
  | cons a as ih =>
    obtain ⟨e, he, first⟩ := h a
    obtain ⟨f, hf, second⟩ := ih
    refine ⟨e.andThen f, he.andThen hf, fun s hk => ?_⟩
    have rest := second _ ((e.kind_on s).trans hk)
    simp only [Diagnostics.gather, first s hk, rest, Effect.on_andThen]
    rfl

end Acts

theorem acts_addEntry (location : Location) (entry : Value) :
    Acts kind name (addEntry location · entry) := by
  unfold addEntry
  cases entry.text? >>= edgeOfText? with
  | some edge => exact ⟨{ edges := [edge] }, Effect.under_of_heading (.empty name) _ [], fun _ _ => rfl⟩
  | none => exact .reporting _

theorem acts_storeCommon (name : String) (v : Value) (location : Location) :
    Acts kind name (·.storeCommon name v location) := by
  unfold storeCommon
  split
  · exact ⟨{ heading := { timeout := some v }, reports := _ },
      Effect.under_of_heading ⟨fun _ => rfl, fun _ => rfl, fun h => absurd rfl h, fun _ => rfl,
        fun _ => rfl⟩ [] _, fun _ _ => rfl⟩
  · exact .reporting _
  · exact .gather (acts_addEntry location) (entriesOf v)
  · unfold Field.set
    cases hf : commonFields.find? (·.name == name) with
    | none => exact .reporting []
    | some f =>
      dsimp only
      cases hd : f.type.convert name v with
      | error m => exact .reporting [m.toDiagnostic location]
      | ok data =>
        have named : f.name = name := by simpa using List.find?_some hf
        have hm := List.mem_of_find?_eq_some hf
        simp only [commonFields, List.mem_cons, List.not_mem_nil, or_false] at hm
        rcases hm with rfl | rfl | rfl <;> subst named
        · exact ⟨{ heading := { title := some data } }, Effect.under_of_heading
            ⟨fun h => absurd rfl h, fun _ => rfl, fun _ => rfl, fun _ => rfl, fun _ => rfl⟩ [] [],
            fun _ _ => rfl⟩
        · exact ⟨{ heading := { description := some data } }, Effect.under_of_heading
            ⟨fun _ => rfl, fun h => absurd rfl h, fun _ => rfl, fun _ => rfl, fun _ => rfl⟩ [] [],
            fun _ _ => rfl⟩
        · exact ⟨{ heading := { condition := some data } }, Effect.under_of_heading
            ⟨fun _ => rfl, fun _ => rfl, fun _ => rfl, fun h => absurd rfl h, fun _ => rfl⟩ [] [],
            fun _ _ => rfl⟩

theorem acts_depending (d : DependencySet) :
    Acts kind name fun s => (s.depending d, []) := by
  refine ⟨{ edges := d.edges }, Effect.under_of_heading (.empty name) _ [], fun s _ => ?_⟩
  simp only [depending, DependencySet.merge_eq_foldl_add]
  rfl

theorem acts_defer (name : String) (e : Expression) : Acts kind name fun s => (s.defer name e, []) :=
  ⟨{ writes := [.keep name e] }, Effect.under_of_write (show Write.Under name (.keep name e) from rfl) [],
    fun _ _ => rfl⟩

theorem acts_prepared (a : Attribute) : Acts kind a.name fun s => (prepared ctx a s, []) := by
  have waits : Acts kind a.name fun s => (s.depending (a.resolve ctx).dependencies, []) :=
    acts_depending _
  by_cases named : a.name = "for_each"
  · have collects : Acts kind a.name fun s => ({ s with forEach := some a.expression }, []) :=
      ⟨{ heading := { forEach := some a.expression } }, Effect.under_of_heading
        ⟨fun _ => rfl, fun _ => rfl, fun _ => rfl, fun _ => rfl, fun h => absurd named h⟩ [] [],
        fun _ _ => rfl⟩
    exact (collects.comp waits).congr fun s _ => by simp [prepared, named]
  · exact waits.congr fun s _ => by simp [prepared, named]

theorem acts_setCommon (a : Attribute) : Acts kind a.name (·.setCommon a ctx) := by
  have prepares : Acts kind a.name fun s => (prepared ctx a s, []) := acts_prepared a
  cases ho : (a.resolve ctx).outcome with
  | resolved v =>
    refine ((acts_storeCommon a.name v a.location).comp prepares).congr fun s _ => ?_
    simp only [setCommon, ho]
    rfl
  | deferred =>
    by_cases exempt : (a.name == "depends_on" || a.name == "for_each") = true
    · refine prepares.congr fun s _ => ?_
      simp only [setCommon, ho, if_pos exempt]
      rfl
    · refine ((acts_defer a.name a.expression).comp prepares).congr fun s _ => ?_
      simp only [setCommon, ho, if_neg exempt]
      rfl
  | failed ds =>
    refine ((Acts.reporting ds).comp prepares).congr fun s _ => ?_
    simp only [setCommon, ho]
    rfl

theorem acts_setOfKind (name : String) (a : Attribute) : Acts kind name (·.setOfKind name a ctx) := by
  have waits : Acts kind name fun s => (s.depending (a.resolve ctx).dependencies, []) :=
    acts_depending _
  cases ho : (a.resolve ctx).outcome with
  | resolved v =>
    rcases StepSpec.set_cases kind name v with stored | ⟨m, refused⟩
    · have stores : Acts kind name fun s => ({ s with spec := s.spec.store name v }, []) :=
        ⟨{ writes := [.store name v] },
          Effect.under_of_write (show Write.Under name (.store name v) from rfl) [], fun _ _ => rfl⟩
      refine (stores.comp waits).congr fun s hk => ?_
      simp only [setOfKind, ho, depending, stored s.spec hk]
    · refine ((Acts.reporting [m.toDiagnostic a.location]).comp waits).congr fun s hk => ?_
      simp only [setOfKind, ho, depending, refused s.spec hk]
  | deferred =>
    refine ((acts_defer name a.expression).comp waits).congr fun s _ => ?_
    simp only [setOfKind, ho]
  | failed ds =>
    refine ((Acts.reporting ds).comp waits).congr fun s _ => ?_
    simp only [setOfKind, ho]

/-- Every attribute of a body has one effect on all steps of a kind, under its own name. -/
theorem acts_setAttribute (a : Attribute) : Acts kind a.name (setAttribute ctx · a) := by
  by_cases common : commonNames.contains a.name = true
  · exact (acts_setCommon a).congr fun s _ => if_pos common
  · by_cases owned : kind.accepts a.name = true
    · have sets : Acts kind a.name (·.setOfKind a.name a ctx) := acts_setOfKind a.name a
      refine sets.congr fun s hk => ?_
      rw [setAttribute, if_neg common, hk, if_pos owned]
    · refine (Acts.reporting [Block.unsupportedAttribute a (Keyword.spell kind ++ " step")]).congr
        fun s hk => ?_
      rw [setAttribute, if_neg common, hk, if_neg owned]

theorem exists_effect (ctx : ResolutionContext) (a : Attribute) (kind : StepKind) :
    ∃ e : Effect, e.Under a.name ∧ ∀ s, s.kind = kind → setAttribute ctx s a = (e.on s, e.reports) :=
  acts_setAttribute a

end Step
end PipelineResolution
