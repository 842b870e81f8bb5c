import PipelineResolution.Proofs.Step.Decoding

/-!
# What leaves the settings of a step alone

Most of a step's block neither reads nor writes the settings of its kind. Two steps that differ in
their settings only are changed by it alike, and it reports the same on both.
-/
namespace PipelineResolution

/-- The settings of a step and the attributes that wait for run time. -/
structure Intake where
  spec : StepSpec
  deferred : Dict Expression

namespace Step
variable {ctx : ResolutionContext} {s s' : Step}

def intake (s : Step) : Intake := ⟨s.spec, s.deferred⟩

/-- The step with other settings and dependencies. -/
def taking (s : Step) (x : Intake) (d : DependencySet) : Step :=
  { s with spec := x.spec, deferred := x.deferred, dependencies := d }

/-- Two steps that differ in settings and dependencies only. -/
def Mirrors (s s' : Step) : Prop := ∃ x d, x.spec.kind = s.kind ∧ s' = s.taking x d

theorem Mirrors.kind_eq (h : Mirrors s s') : s'.kind = s.kind := by
  obtain ⟨x, d, hk, rfl⟩ := h
  exact hk

theorem Mirrors.taking (h : Mirrors s s') {x y : Intake} (hx : x.spec.kind = s.kind)
    (hy : y.spec.kind = s.kind) (d e : DependencySet) : Mirrors (s.taking x d) (s'.taking y e) := by
  obtain ⟨z, f, -, rfl⟩ := h
  exact ⟨y, e, hy.trans hx.symm, rfl⟩

theorem Mirrors.defer (h : Mirrors s s') (name : String) (e : Expression) :
    Mirrors (s.defer name e) (s'.defer name e) :=
  h.taking (x := ⟨s.spec, _⟩) (y := ⟨s'.spec, _⟩) rfl h.kind_eq s.dependencies s'.dependencies

/-- A change that neither reads nor writes the settings, and reports the same whatever they are. -/
def Aside (F : Step → Step × Diagnostics) : Prop :=
  ∀ s x d, x.spec.kind = s.kind → ∃ d', F (s.taking x d) = ((F s).1.taking x d', (F s).2)

theorem Aside.intake_eq {F : Step → Step × Diagnostics} (h : Aside F) (s : Step) :
    (F s).1.intake = s.intake := by
  obtain ⟨d, hd⟩ := h s s.intake s.dependencies rfl
  exact congrArg (fun r : Step × Diagnostics => r.1.intake) hd

theorem Aside.mirrors {F : Step → Step × Diagnostics} (h : Aside F) (hs : Mirrors s s') :
    (F s').2 = (F s).2 ∧ Mirrors (F s).1 (F s').1 := by
  obtain ⟨x, d, hx, rfl⟩ := hs
  obtain ⟨d', hd⟩ := h s x d hx
  rw [hd]
  exact ⟨rfl, x, d', hx.trans (congrArg (·.spec.kind) (h.intake_eq s)).symm, rfl⟩

theorem Aside.comp {F : Step → Step × Diagnostics} {P : Step → Step} (hF : Aside F)
    (hP : Aside fun s => (P s, [])) : Aside fun s => F (P s) := by
  intro s x d hx
  obtain ⟨d', hd⟩ := hP s x d hx
  have hp : P (s.taking x d) = (P s).taking x d' := congrArg Prod.fst hd
  dsimp only
  rw [hp]
  exact hF _ x d' (hx.trans (congrArg (·.spec.kind) (hP.intake_eq s)).symm)

theorem Aside.gather {α : Type} {f : Step → α → Step × Diagnostics} (h : ∀ a, Aside (f · a))
    (as : List α) : Aside (Diagnostics.gather f · as) := by
  induction as with
  | nil => exact fun s x d _ => ⟨d, rfl⟩
  | cons a as ih =>
    intro s x d hx
    obtain ⟨d', hd⟩ := h a s x d hx
    have hk : x.spec.kind = (f s a).1.kind :=
      hx.trans (congrArg (·.spec.kind) ((h a).intake_eq s)).symm
    obtain ⟨d'', hd'⟩ := ih (f s a).1 x d' hk
    dsimp only at hd hd'
    exact ⟨d'', by simp only [Diagnostics.gather, hd, hd']⟩

theorem aside_addEntry (location : Location) (entry : Value) :
    Aside (addEntry location · entry) := by
  intro s x d _
  dsimp only [addEntry]
  split
  · exact ⟨_, rfl⟩
  · exact ⟨_, rfl⟩

theorem set_commonFields_taking (name : String) (v : Value) (s : Step) (x : Intake)
    (d : DependencySet) : Field.set commonFields name name v (s.taking x d) =
      (Field.set commonFields name name v s).map (·.taking x d) := by
  unfold Field.set
  cases hf : commonFields.find? (·.name == name) with
  | none => rfl
  | some f =>
    have hm := List.mem_of_find?_eq_some hf
    dsimp only
    cases f.type.convert name v with
    | error m => rfl
    | ok data =>
      simp only [commonFields, List.mem_cons, List.not_mem_nil, or_false] at hm
      rcases hm with rfl | rfl | rfl <;> rfl

theorem aside_storeCommon (name : String) (v : Value) (location : Location) :
    Aside (·.storeCommon name v location) := by
  intro s x d hx
  dsimp only [storeCommon]
  split
  · exact ⟨d, rfl⟩
  · exact ⟨d, rfl⟩
  · exact Aside.gather (aside_addEntry location) _ s x d hx
  · rw [set_commonFields_taking]
    cases Field.set commonFields name name v s with
    | error m => exact ⟨d, rfl⟩
    | ok s' => exact ⟨d, rfl⟩

variable {b : Block}

theorem aside_setLoop : Aside (·.setLoop b ctx) := by
  intro s x d hx
  dsimp only [setLoop]
  rw [show (s.taking x d).kind = s.kind from hx]
  cases Loop.ofBlock b s.kind ctx with
  | error ds => exact ⟨d, rfl⟩
  | ok found => exact ⟨_, rfl⟩

theorem aside_setPolicy {α : Type} (r : Resolution α) {put : α → Step → Step}
    (hput : ∀ p s x d, put p (s.taking x d) = (put p s).taking x d) :
    Aside (·.setPolicy b r put) := by
  intro s x d hx
  dsimp only [setPolicy]
  cases r.outcome with
  | resolved p => exact ⟨d.merge r.dependencies, Prod.ext (hput p (s.depending r.dependencies) x _) rfl⟩
  | deferred => exact ⟨d.merge r.dependencies, rfl⟩
  | failed ds => exact ⟨d.merge r.dependencies, rfl⟩

theorem aside_addThrow : Aside (·.addThrow b ctx) := by
  intro s x d hx
  dsimp only [addThrow]
  cases Throw.ofBlock b ctx with
  | error ds => exact ⟨d, rfl⟩
  | ok found => exact ⟨_, rfl⟩

theorem aside_addOutput : Aside (·.addOutput b ctx) := by
  intro s x d hx
  dsimp only [addOutput]
  cases NamedOutput.ofBlock b ctx with
  | error ds => exact ⟨d, rfl⟩
  | ok o =>
    dsimp only
    rw [show (s.taking x d).outputs = s.outputs from rfl]
    split
    · exact ⟨d, rfl⟩
    · exact ⟨d.merge o.dependencies, rfl⟩

end Step
end PipelineResolution
