import PipelineResolution.Proofs.Execution.Environment

/-!
# Recorded outputs

Outputs are recorded one after the other, each in its place under `step`. Nothing recorded elsewhere
is lost: every place holds what was recorded there last, or what it held before. An output shows all
its data but what the engine itself says under the same key.
-/
namespace PipelineResolution

namespace Output

/-- What the engine says under a key. -/
def engineValue? (o : Output) (key : String) : Option Value :=
  if key = "status" ∧ o.status ≠ "" then some (.string o.status)
  else if key = "errors" ∧ o.errors ≠ [] then some (.list (o.errors.map StepError.toValue))
  else none

/-- The entries that expressions see. -/
def seen (o : Output) : Dict Value :=
  o.engineEntries.foldl (fun d (k, v) => Dict.insert d k v) o.data

variable {o : Output} {key : String}

theorem isSome_engineValue? : (o.engineValue? key).isSome ↔
    key = "status" ∧ o.status ≠ "" ∨ key = "errors" ∧ o.errors ≠ [] := by
  unfold engineValue?
  split
  · simp [*]
  · split <;> simp [*]

theorem mem_engineEntries : key ∈ o.engineEntries.map Prod.fst ↔ (o.engineValue? key).isSome := by
  rw [isSome_engineValue?, engineEntries]
  by_cases hs : o.status = "" <;> by_cases he : o.errors = [] <;> simp [hs, he]

/-- An expression sees what the engine says, and the data where the engine says nothing. -/
theorem get?_seen : o.seen.get? key = (o.engineValue? key).or (o.data.get? key) := by
  unfold seen engineEntries engineValue?
  by_cases hs : o.status = "" <;> by_cases he : o.errors = [] <;>
    simp [hs, he, Dict.get?_insert, @eq_comm _ _ key]
  · split <;> rfl
  · split <;> rfl
  · by_cases status : key = "status"
    · simp [status]
    · split <;> simp [*]

theorem mem_shadowedKeys :
    key ∈ o.shadowedKeys ↔ o.data.contains key = true ∧ (o.engineValue? key).isSome := by
  rw [shadowedKeys, List.mem_filter, mem_engineEntries, and_comm]

end Output

namespace Environment

/-- The value that stands under `step.<kind>.<name>`. -/
def stepValue? (env : Environment) (kind name : String) : Option Value := do
  let kinds ← env.get? "step"
  let names ← kinds.get? kind
  names.get? name

/-- The environment after some outputs are recorded, the latest last. -/
def setStepOutputs (env : Environment) (calls : List (String × String × Output)) : Environment :=
  calls.foldl (fun env (kind, name, output) => env.setStepOutput kind name output) env

/-- The last output that is recorded in a place. -/
def lastOutput? (calls : List (String × String × Output)) (kind name : String) : Option Output :=
  (calls.filter fun call => call.1 = kind ∧ call.2.1 = name).getLast?.map (·.2.2)

variable {env : Environment} {kind name : String}

theorem get?_entriesOf (v : Option Value) (key : String) :
    (entriesOf v).get? key = v.bind (·.get? key) := by
  cases v with
  | none => rfl
  | some v => cases v <;> rfl

theorem stepValue?_eq : env.stepValue? kind name = env.output? kind name := by
  rw [output?, get?_entriesOf, get?_entriesOf, stepValue?]
  cases env.get? "step" with
  | none => rfl
  | some v => rfl

theorem output?_setStepOutput {other label : String} {output : Output} :
    (env.setStepOutput kind name output).output? other label =
      if kind = other ∧ name = label then some output.toValue else env.output? other label := by
  unfold output?
  rw [get?_setStepOutput, entriesOf, Dict.get?_insert]
  by_cases hk : kind = other
  · subst hk
    rw [if_pos rfl, entriesOf, Dict.get?_insert]
    simp only [true_and]
  · rw [if_neg hk, if_neg fun h => hk h.1]

theorem get?_setStepOutput_of_ne {other : String} {output : Output} (ne : other ≠ "step") :
    (env.setStepOutput kind name output).get? other = env.get? other :=
  (Dict.get?_insert _ _ _ _).trans (if_neg ne.symm)

theorem lastOutput?_cons (call : String × String × Output)
    (calls : List (String × String × Output)) : lastOutput? (call :: calls) kind name =
      (lastOutput? calls kind name).or
        (if call.1 = kind ∧ call.2.1 = name then some call.2.2 else none) := by
  unfold lastOutput?
  by_cases h : call.1 = kind ∧ call.2.1 = name
  · rw [List.filter_cons_of_pos (by simpa using h), List.getLast?_cons, if_pos h]
    cases (calls.filter _).getLast? <;> rfl
  · rw [List.filter_cons_of_neg (by simpa using h), if_neg h, Option.or_none]

theorem stepValue?_setStepOutputs (calls : List (String × String × Output)) :
    (env.setStepOutputs calls).stepValue? kind name =
      ((lastOutput? calls kind name).map Output.toValue).or (env.stepValue? kind name) := by
  induction calls generalizing env with
  | nil => rfl
  | cons call calls ih =>
    have first : (env.setStepOutput call.1 call.2.1 call.2.2).setStepOutputs calls =
        env.setStepOutputs (call :: calls) := rfl
    rw [← first, ih, lastOutput?_cons, stepValue?_eq, stepValue?_eq, output?_setStepOutput]
    cases lastOutput? calls kind name with
    | some last => rfl
    | none => by_cases h : call.1 = kind ∧ call.2.1 = name <;> simp [h]

theorem get?_setStepOutputs {other : String} (ne : other ≠ "step")
    (calls : List (String × String × Output)) :
    (env.setStepOutputs calls).get? other = env.get? other := by
  induction calls generalizing env with
  | nil => rfl
  | cons call calls ih => exact ih.trans (get?_setStepOutput_of_ne ne)

end Environment

/-- Recording outputs loses nothing. Every place under `step` holds the last output that was
recorded in it, and what it held before if there is none; all other names keep their values. What is
held of an output has its data and what the engine says: the data under all keys but the shadowed
ones, which are those where the engine's value has taken the place of data. -/
theorem recording_loses_nothing (env : Environment) (calls : List (String × String × Output)) :
    (∀ kind name, (env.setStepOutputs calls).stepValue? kind name =
      ((Environment.lastOutput? calls kind name).map Output.toValue).or
        (env.stepValue? kind name)) ∧
    (∀ name, name ≠ "step" → (env.setStepOutputs calls).get? name = env.get? name) ∧
    ∀ o : Output, ∃ entries : Dict Value, o.toValue = .map entries ∧
      (∀ key, entries.contains key = true ↔ o.data.contains key = true ∨
        key = "status" ∧ o.status ≠ "" ∨ key = "errors" ∧ o.errors ≠ []) ∧
      (∀ key v, key ∉ o.shadowedKeys → o.data.get? key = some v → entries.get? key = some v) ∧
      ∀ key, key ∈ o.shadowedKeys ↔ o.data.contains key = true ∧
        ∃ v, o.engineValue? key = some v ∧ entries.get? key = some v := by
  refine ⟨fun kind name => Environment.stepValue?_setStepOutputs calls,
    fun name ne => Environment.get?_setStepOutputs ne calls,
    fun o => ⟨o.seen, rfl, fun key => ?_, fun key v unshadowed hv => ?_, fun key => ?_⟩⟩
  · rw [← Output.isSome_engineValue?, Dict.contains, Dict.contains, Output.get?_seen,
      Option.isSome_or, Bool.or_eq_true, or_comm]
  · rw [Output.mem_shadowedKeys, not_and, Dict.contains, hv] at unshadowed
    rw [Output.get?_seen, Option.not_isSome_iff_eq_none.1 (unshadowed rfl), hv, Option.none_or]
  · rw [Output.mem_shadowedKeys, Option.isSome_iff_exists, Output.get?_seen]
    refine and_congr_right fun _ => exists_congr fun v => ⟨fun h => ⟨h, ?_⟩, And.left⟩
    rw [h, Option.some_or]

end PipelineResolution
