import PipelineResolution.Execution.Environment
import PipelineResolution.Keyword
import PipelineResolution.Proofs.Dict

/-!
# What environments bind

Evaluation looks an identifier up among all names that are spelled as it, and the check for unbound
roots looks up the name itself. Both give the same where no other bound name is spelled alike; for
`step` that is always so. Recording outputs changes `step` alone, and under it only kinds of steps.
-/
namespace PipelineResolution

namespace Text

/-- A name without `_` is not the spelling of another name. -/
theorem eq_of_identifierOf {name target : String} (plain : '_' ∉ target.toList)
    (h : identifierOf name = target) : name = target := by
  have hmap : name.toList.map (fun c => if isIdentifierRest c then c else '_') = target.toList := by
    unfold identifierOf at h
    split at h
    · subst h
      exact absurd (by decide) plain
    · rename_i c cs hc
      split at h <;> subst h
      · rw [String.toList_ofList, hc]
      · exact absurd (by simp) plain
  have hid : ∀ c ∈ name.toList, (if isIdentifierRest c then c else '_') = c := by
    intro c hc
    split
    · rfl
    · rename_i hn
      refine absurd ?_ plain
      rw [← hmap]
      exact List.mem_map.2 ⟨c, hc, if_neg hn⟩
  rw [List.map_congr_left hid, List.map_id'] at hmap
  exact String.toList_inj.1 hmap

end Text

namespace Environment
variable {env : Environment} {name : String}

/-- No name that is bound after one of the given ones is spelled as it. -/
def Plain (env : Environment) (names : List String) : Prop :=
  ∀ name ∈ names, ∀ entry ∈ env.bindings, Text.identifierOf entry.1 = name → entry.1 ≤ name

instance (env : Environment) (names : List String) : Decidable (env.Plain names) :=
  inferInstanceAs (Decidable (∀ name ∈ names, ∀ entry ∈ env.bindings, _ → _))

theorem find?_eq_get? (sorted : env.bindings.Sorted)
    (alone : ∀ entry ∈ env.bindings, Text.identifierOf entry.1 = name ↔ entry.1 = name) :
    env.find? name = env.get? name := by
  have hf : env.bindings.filter (Text.identifierOf ·.1 == name) =
      env.bindings.filter (·.1 == name) := by
    apply List.filter_congr
    intro entry he
    rw [Bool.eq_iff_iff, beq_iff_eq, beq_iff_eq]
    exact alone entry he
  change Option.map _ (List.getLast? (env.bindings.filter (Text.identifierOf ·.1 == name))) = _
  rw [hf, sorted.filter_key, get?]
  cases env.bindings.get? name <;> rfl

/-- A bound name that is spelled as itself is the last one that is spelled so. -/
theorem Plain.find?_eq {names : List String} (h : env.Plain names) (sorted : env.bindings.Sorted)
    (mem : name ∈ names) (identifier : Text.identifierOf name = name) {v : Value}
    (bound : env.get? name = some v) : env.find? name = some v := by
  let alike : Dict Value := env.bindings.filter (Text.identifierOf ·.1 == name)
  have ordered : alike.Sorted := sorted.sublist List.filter_sublist
  have here : (name, v) ∈ alike :=
    List.mem_filter.2 ⟨Dict.mem_of_get? bound, by simpa using identifier⟩
  have last : List.getLast? alike = some (name, v) := by
    refine ordered.getLast?_eq here fun entry he => ?_
    obtain ⟨hb, spelled⟩ := List.mem_filter.1 he
    exact h name mem entry hb (beq_iff_eq.1 spelled)
  exact congrArg (Option.map Prod.snd) last

theorem binds_iff : env.binds name = true ↔ ∃ v, env.get? name = some v := by
  rw [binds, Dict.contains, Option.isSome_iff_exists]
  rfl

theorem find?_step (sorted : env.bindings.Sorted) : env.find? "step" = env.get? "step" :=
  find?_eq_get? sorted fun _ _ => ⟨Text.eq_of_identifierOf (by decide), fun h => by rw [h]; decide⟩

/-- The output that is recorded for a step. -/
def output? (env : Environment) (kind name : String) : Option Value :=
  (entriesOf ((entriesOf (env.get? "step")).get? kind)).get? name

theorem get?_setStepOutput (env : Environment) (kind name : String) (output : Output) :
    (env.setStepOutput kind name output).get? "step" =
      some (.map ((entriesOf (env.get? "step")).insert kind
        (.map ((entriesOf ((entriesOf (env.get? "step")).get? kind)).insert name
          output.toValue)))) :=
  (Dict.get?_insert _ _ _ _).trans (if_pos rfl)

/-- The environment after some steps have run, the latest last. -/
def record (env : Environment) : List (StepKind × String × Output) → Environment
  | [] => env
  | (kind, name, output) :: runs => (env.setStepOutput (Keyword.spell kind) name output).record runs

/-- What recording outputs leaves as it was. -/
structure RunsOver (base env : Environment) : Prop where
  sorted : env.bindings.Sorted
  find?_eq : ∀ name, name ≠ "step" → env.find? name = base.find? name
  get?_eq : ∀ name, name ≠ "step" → env.get? name = base.get? name
  kinds : ∀ kind v, (entriesOf (env.get? "step")).get? kind = some v →
    ∃ k : StepKind, Keyword.spell k = kind

theorem runsOver_refl {base : Environment} (sorted : base.bindings.Sorted)
    (unbound : base.binds "step" = false) : RunsOver base base := by
  refine ⟨sorted, fun _ _ => rfl, fun _ _ => rfl, fun kind v h => ?_⟩
  have hn : base.get? "step" = none :=
    Option.isNone_iff_eq_none.1 (Option.isSome_eq_false_iff.1 unbound)
  rw [hn] at h
  cases h

theorem RunsOver.setStepOutput {base : Environment} (h : RunsOver base env) (kind : StepKind)
    (name : String) (output : Output) :
    RunsOver base (env.setStepOutput (Keyword.spell kind) name output) := by
  refine ⟨h.sorted.insert _ _, fun other hn => ?_, fun other hn => ?_, fun other v hk => ?_⟩
  · rw [← h.find?_eq other hn]
    unfold find? Environment.setStepOutput set
    have hs : Text.identifierOf "step" = "step" := by decide
    rw [Dict.filter_insert fun v => by simpa [hs] using hn.symm]
  · rw [← h.get?_eq other hn]
    exact (Dict.get?_insert _ _ _ _).trans (if_neg hn.symm)
  · rw [get?_setStepOutput, entriesOf, Dict.get?_insert] at hk
    split at hk
    · rename_i he
      exact ⟨kind, he⟩
    · exact h.kinds other v hk

theorem RunsOver.record {base : Environment} (h : RunsOver base env)
    (runs : List (StepKind × String × Output)) : RunsOver base (env.record runs) := by
  induction runs generalizing env with
  | nil => exact h
  | cons run runs ih => exact ih (h.setStepOutput run.1 run.2.1 run.2.2)

/-- Once a step has run, `step` is bound to a map. -/
theorem get?_record (env : Environment) {runs : List (StepKind × String × Output)}
    (ran : runs ≠ []) :
    ∃ kinds, (env.record runs).get? "step" = some (.map kinds) := by
  have keeps (runs : List (StepKind × String × Output)) (env : Environment)
      (h : ∃ kinds, env.get? "step" = some (.map kinds)) :
      ∃ kinds, (env.record runs).get? "step" = some (.map kinds) := by
    induction runs generalizing env with
    | nil => exact h
    | cons run runs ih =>
      exact ih _ ⟨_, get?_setStepOutput _ _ _ _⟩
  cases runs with
  | nil => exact absurd rfl ran
  | cons run runs =>
    exact keeps runs _ ⟨_, get?_setStepOutput _ _ _ _⟩

end Environment
end PipelineResolution
