import PipelineResolution.Proofs.Failing
import PipelineResolution.Step.Basic

/-!
# Decoding a step in three passes

A step starts empty, takes in the attributes and then the inner blocks of its block, and is checked
at the end. It is accepted when none of the three reports an error.
-/
namespace PipelineResolution.Step

/-- The step before anything of its block is taken in. -/
def start (b : Block) (kind : StepKind) (name pipeline : String) : Step :=
  { ofKind kind name pipeline with location := b.location }

/-- The step with the attributes and inner blocks of its block, and what is reported on them. -/
def takeIn (s : Step) (b : Block) (ctx : ResolutionContext) : Step × Diagnostics :=
  let (s, ds) := s.setAttributes b ctx
  let (s, more) := s.setBlocks b ctx
  (s, ds ++ more)

/-- The step without a dependency on itself. -/
def released (s : Step) : Step :=
  { s with dependencies := s.dependencies.removeStep s.fullName }

variable {s s' : Step} {b : Block} {pipeline : String} {ctx : ResolutionContext}

/-- A common attribute that only has to be stored is one of three. -/
theorem eq_of_set_commonFields {name : String} {v : Value}
    (h : Field.set commonFields name name v s = .ok s') :
    ∃ title description condition, s' = { s with title, description, condition } := by
  unfold Field.set at h
  split at h
  · rename_i f hf
    cases hc : f.type.convert name v with
    | error m => simp [hc, Except.map] at h
    | ok data =>
      simp only [hc, Except.map, Except.ok.injEq] at h
      subst h
      have hm := List.mem_of_find?_eq_some hf
      simp only [commonFields, List.mem_cons, List.not_mem_nil, or_false] at hm
      rcases hm with rfl | rfl | rfl <;> exact ⟨_, _, _, rfl⟩
  · cases h
    exact ⟨_, _, _, rfl⟩

theorem ofBlock_eq {word name : String} {kind : StepKind} (labels : b.labels = [word, name])
    (known : Keyword.parse StepKind word = .ok kind) :
    ofBlock b pipeline ctx =
      Diagnostics.orValue (((start b kind name pipeline).takeIn b ctx).2 ++
        ((start b kind name pipeline).takeIn b ctx).1.check)
      ((start b kind name pipeline).takeIn b ctx).1.released := by
  unfold ofBlock
  simp only [labels, known]
  rfl

theorem exists_of_ofBlock (accepted : ofBlock b pipeline ctx = .ok s) :
    ∃ word name kind, b.labels = [word, name] ∧ Keyword.parse StepKind word = .ok kind ∧
      ((start b kind name pipeline).takeIn b ctx).2.hasErrors = false ∧
      ((start b kind name pipeline).takeIn b ctx).1.check.hasErrors = false ∧
      ((start b kind name pipeline).takeIn b ctx).1.released = s := by
  match labels : b.labels with
  | [word, name] =>
    cases known : Keyword.parse StepKind word with
    | error e =>
      unfold ofBlock at accepted
      simp only [labels, known] at accepted
      cases accepted
    | ok kind =>
      rw [ofBlock_eq labels known] at accepted
      obtain ⟨hds, rfl⟩ := Diagnostics.orValue_eq_ok.1 accepted
      rw [Diagnostics.hasErrors_append, Bool.or_eq_false_iff] at hds
      exact ⟨word, name, kind, rfl, known, hds.1, hds.2, rfl⟩
  | [] | [_] | _ :: _ :: _ :: _ =>
    unfold ofBlock at accepted
    simp only [labels] at accepted
    cases accepted

end PipelineResolution.Step
