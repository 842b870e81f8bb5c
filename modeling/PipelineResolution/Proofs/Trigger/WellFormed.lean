import PipelineResolution.Proofs.Resolution.Edges
import PipelineResolution.Proofs.Trigger.Settled
import PipelineResolution.Trigger.Basic

/-!
# Accepted triggers are well formed

Decoding a trigger goes on after a report, with nothing in the place of what could not be told. Each
such gap is reported somewhere, so an accepted trigger has none: it is of the kind of its block, it
fires at the times of a schedule that was read, and whatever it runs is named or waits to be.
-/
namespace PipelineResolution

/-- A pipeline is named by a known value, or it is told when the trigger fires. -/
def NamesPipeline (pipeline : Option Value) (deferred : Dict Expression) : Prop :=
  (∃ v name, pipeline = some v ∧ v.pipelineName? = some name) ∨ deferred.contains "pipeline" = true

/-- Arguments that are known are handed over whatever is bound, and no arguments are an empty map. -/
def Arguments (arguments : Option (Dict Value)) (deferred : Dict Expression)
    (argumentsAt : Environment → Except Diagnostics (Dict Value)) : Prop :=
  deferred.contains "args" = false → ∀ env, argumentsAt env = .ok (arguments.getD [])

structure Capture.WellFormed (type : CaptureType) (c : Capture) : Prop where
  type : c.type = type
  pipeline : NamesPipeline c.pipeline c.deferred
  arguments : Arguments c.arguments c.deferred c.argumentsAt

/-- What a query trigger is told, with the attributes that are left for its firing. -/
structure QuerySource.WellFormed (q : QuerySource) (deferred : Dict Expression) : Prop where
  primaryKey : Text.trim q.primaryKey ≠ ""
  sql : q.sql.isSome = true ∨ deferred.contains "sql" = true
  database : q.database.isSome = true ∨ deferred.contains "database" = true
  captures : ∀ type c, q.captures type = some c → c.WellFormed type

structure Trigger.WellFormed (t : Trigger) : Prop where
  schedule : t.kind ≠ .http →
    ∃ s text, t.spec.schedule? = some s ∧ Schedule.ofText text = .ok s
  pipeline : t.kind ≠ .query → NamesPipeline t.pipeline t.deferred
  query : ∀ q, t.spec = .query q → q.WellFormed t.deferred
  arguments : Arguments t.arguments t.deferred t.argumentsAt

namespace Capture
variable {b : Block} {ctx : ResolutionContext} {type : CaptureType}

theorem isError_of_refine (a : Attribute) (v : Value) (d : Diagnostic)
    (h : refine a v = .error d) : d.isError = true := by
  unfold refine at h
  split at h
  · split at h <;> cases h
    rfl
  · split at h <;> cases h
    rfl

/-- A pipeline that is stored has a name. -/
theorem named_of_gather {as : List Attribute} {v : Value}
    (accepted : (Diagnostics.gather (Settled.add ctx refine) {} as).2.hasErrors = false)
    (h : (Diagnostics.gather (Settled.add ctx refine) {} as).1.values.get? "pipeline" = some v) :
    v.pipelineName?.isSome = true := by
  refine Diagnostics.gather_preserves
    (I := fun s : Settled => ∀ v, s.values.get? "pipeline" = some v → v.pipelineName?.isSome = true)
    (fun s a named accepted v hv => ?_) as (fun v hv => by cases hv) accepted v h
  rcases Settled.add_cases (isError_of_refine a) accepted with ⟨w, w', hw, values, -⟩ | ⟨values, -⟩
  · rw [values, Dict.get?_insert] at hv
    split at hv
    · rename_i hn
      obtain rfl := Option.some.inj hv
      rw [refine, if_pos (by simp [hn])] at hw
      split at hw <;> cases hw
      assumption
    · exact named v hv
  · rw [values] at hv
    exact named v hv

theorem wellFormed_ofBody (accepted : (ofBody type b ctx).2.2.hasErrors = false) :
    (ofBody type b ctx).1.WellFormed type := by
  simp only [ofBody, Diagnostics.hasErrors_append, Bool.or_eq_false_iff] at accepted
  obtain ⟨⟨-, taken⟩, present⟩ := accepted
  refine ⟨rfl, ?_, fun h => evaluateArguments_known h _⟩
  split at present
  · rename_i held
    rcases Bool.or_eq_true_iff.1 held with known | deferred
    · obtain ⟨v, hv⟩ := Option.isSome_iff_exists.1 known
      obtain ⟨name, named⟩ := Option.isSome_iff_exists.1 (named_of_gather taken hv)
      exact .inl ⟨v, name, hv, named⟩
    · exact .inr deferred
  · cases present

theorem wellFormed_add {state : Captures × DependencySet}
    (h : ∀ type c, state.1 type = some c → c.WellFormed type)
    (accepted : (add ctx state b).2.hasErrors = false) :
    ∀ type c, (add ctx state b).1.1 type = some c → c.WellFormed type := by
  unfold add at accepted ⊢
  dsimp only at accepted ⊢
  split
  · exact h
  · exact h
  · rename_i type known
    split
    · exact h
    · rename_i free
      simp only [known, if_neg free] at accepted
      intro other c hc
      simp only [Captures.set] at hc
      split at hc
      · rename_i same
        cases hc
        exact same ▸ wellFormed_ofBody accepted
      · exact h other c hc

theorem wellFormed_ofBlocks (accepted : (ofBlocks b ctx).2.hasErrors = false) :
    ∀ type c, (ofBlocks b ctx).1.1 type = some c → c.WellFormed type :=
  Diagnostics.gather_preserves
    (I := fun state : Captures × DependencySet => ∀ type c, state.1 type = some c → c.WellFormed type)
    (fun _ _ h accepted => wellFormed_add h accepted) _ (fun _ _ hc => nomatch hc) accepted

end Capture

namespace Trigger
variable {b : Block} {ctx : ResolutionContext} {s : Settled}

theorem takes_settle : Settled.Takes staticNames.contains (settle ctx) := by
  intro s a accepted
  unfold settle at accepted ⊢
  split at accepted
  · rename_i static
    rw [if_pos static]
    exact Settled.takes_addStatic s a accepted
  · rename_i static
    rw [if_neg static]
    have takes : Settled.Takes (fun _ => false) (Settled.add ctx fun _ v => .ok v) :=
      Settled.takes_add (fun _ _ _ h => by cases h) fun _ => rfl
    rcases takes s a accepted with known | ⟨-, deferred⟩
    · exact .inl known
    · exact .inr ⟨by simpa using static, deferred⟩

/-- Every attribute of the block that is taken in is known, or left for the firing if it may be. -/
def Complete (b : Block) (allowed : List String) (s : Settled) : Prop :=
  ∀ a ∈ b.attributes, allowed.contains a.name = true → s.Knows staticNames.contains a.name

theorem complete_of_gather {allowed : List String}
    (accepted : (Diagnostics.gather (settle ctx) {}
      (b.attributes.filter fun a => allowed.contains a.name)).2.hasErrors = false) :
    Complete b allowed (Diagnostics.gather (settle ctx) {}
      (b.attributes.filter fun a => allowed.contains a.name)).1 :=
  fun a ha allow => (takes_settle.gather accepted).2 a (List.mem_filter.2 ⟨ha, allow⟩)

theorem Complete.knows {allowed : List String} (h : Complete b allowed s) {name : String}
    (allow : allowed.contains name = true) (present : (lacking b name).hasErrors = false) :
    s.Knows staticNames.contains name := by
  unfold lacking at present
  split at present
  · cases present
  · rename_i some
    obtain ⟨a, ha⟩ := Option.isSome_iff_exists.1 (by simpa [Option.isSome_iff_ne_none] using some)
    have hn : a.name = name := by simpa using List.find?_some ha
    exact hn ▸ h a (List.mem_of_find?_eq_some ha) (by rwa [hn])

/-- A known attribute whose text is taken without a report has one. -/
theorem text_of_contains {name : String} (known : s.values.contains name = true)
    (accepted : (textOf b s name).2.hasErrors = false) :
    ∃ text, textOf b s name = (some text, []) := by
  obtain ⟨v, hv⟩ := Option.isSome_iff_exists.1 known
  unfold textOf at accepted ⊢
  rw [hv] at accepted ⊢
  dsimp only [Option.map_some] at accepted ⊢
  cases ht : AttributeType.text.convert name v with
  | ok text => exact ⟨text, rfl⟩
  | error m =>
    simp only [ht] at accepted
    cases accepted

/-- A schedule that is not reported was read from a text. -/
theorem schedule_of_accepted {allowed : List String} (h : Complete b allowed s)
    (allow : allowed.contains "schedule" = true)
    (accepted : (scheduleOf b s).2.hasErrors = false) :
    ∃ schedule text, (scheduleOf b s).1 = some schedule ∧ Schedule.ofText text = .ok schedule := by
  unfold scheduleOf at accepted ⊢
  cases ht : textOf b s "schedule" with
  | mk found ds =>
    rw [ht] at accepted
    cases found with
    | none =>
      simp only [Diagnostics.hasErrors_append, Bool.or_eq_false_iff] at accepted
      rcases h.knows allow accepted.2 with known | ⟨dynamic, -⟩
      · obtain ⟨text, found⟩ := text_of_contains known (by rw [ht]; exact accepted.1)
        rw [ht] at found
        cases found
      · cases dynamic
    | some text =>
      dsimp only at accepted ⊢
      cases hs : Schedule.ofText text with
      | ok schedule => exact ⟨schedule, text, rfl, hs⟩
      | error e =>
        simp only [hs, Diagnostics.hasErrors_append, Bool.or_eq_false_iff] at accepted
        cases accepted.2

/-- An attribute that a query has to have is known as a text or left for the firing. -/
theorem textOf_or_deferred {allowed : List String} (h : Complete b allowed s) {name : String}
    (allow : allowed.contains name = true) (present : (lacking b name).hasErrors = false)
    (accepted : (textOf b s name).2.hasErrors = false) :
    (textOf b s name).1.isSome = true ∨ s.deferred.contains name = true := by
  rcases h.knows allow present with known | ⟨-, deferred⟩
  · obtain ⟨text, found⟩ := text_of_contains known accepted
    exact .inl (by rw [found]; rfl)
  · exact .inr deferred

/-- A mode that is not reported is known, and one that is not given has a default. -/
theorem mode_of_accepted (accepted : (modeOf b s).2.hasErrors = false) :
    ∃ mode, (modeOf b s).1 = some mode := by
  unfold modeOf at accepted ⊢
  cases ht : textOf b s "execution_mode" with
  | mk found ds =>
    rw [ht] at accepted
    cases found with
    | none => exact ⟨.asynchronous, rfl⟩
    | some text =>
      dsimp only at accepted ⊢
      cases hm : Keyword.parse ExecutionMode text with
      | ok mode => exact ⟨mode, rfl⟩
      | error e =>
        simp only [hm, Diagnostics.hasErrors_append, Bool.or_eq_false_iff] at accepted
        cases accepted.2

/-- What is special to a kind can be told when nothing about it is reported. -/
theorem spec_of_accepted (kind : TriggerKind)
    (h : Complete b (Field.names TriggerHeader.fields ++ kindNames kind) s)
    (accepted : (specOf kind b s ctx).2.2.hasErrors = false) :
    ∃ spec, (specOf kind b s ctx).1 = some spec ∧ spec.kind = kind ∧
      (kind ≠ .http → ∃ schedule text, spec.schedule? = some schedule ∧
        Schedule.ofText text = .ok schedule) ∧
      ∀ q, spec = .query q → q.WellFormed s.deferred := by
  cases kind with
  | schedule =>
    simp only [specOf, Diagnostics.hasErrors_append, Bool.or_eq_false_iff] at accepted
    obtain ⟨schedule, text, found, read⟩ := schedule_of_accepted h (by decide) accepted.1
    refine ⟨.schedule schedule, by simp only [specOf, found, Option.map_some], rfl,
      fun _ => ⟨schedule, text, rfl, read⟩, fun q hq => by cases hq⟩
  | http =>
    simp only [specOf, Diagnostics.hasErrors_append, Bool.or_eq_false_iff] at accepted
    obtain ⟨mode, found⟩ := mode_of_accepted accepted.2
    exact ⟨.http mode, by simp only [specOf, found, Option.map_some], rfl, fun hn => absurd rfl hn,
      fun q hq => by cases hq⟩
  | query =>
    simp only [specOf, Diagnostics.hasErrors_append, Bool.or_eq_false_iff] at accepted
    obtain ⟨⟨⟨⟨⟨⟨⟨⟨timed, -⟩, -⟩, keyed⟩, queried⟩, connected⟩, sql⟩, database⟩, captured⟩ := accepted
    obtain ⟨schedule, text, found, read⟩ := schedule_of_accepted h (by decide) timed
    refine ⟨_, by simp only [specOf, found, Option.map_some]; rfl, rfl,
      fun _ => ⟨schedule, text, rfl, read⟩, fun q hq => ?_⟩
    cases hq
    refine ⟨fun empty => ?_, textOf_or_deferred h (by decide) sql queried,
      textOf_or_deferred h (by decide) database connected, Capture.wellFormed_ofBlocks captured⟩
    rw [if_pos (by simpa using empty)] at keyed
    cases keyed

/-- A trigger that names no pipeline where it has to is reported. -/
theorem namesPipeline_of_checked {kind : TriggerKind} {h : TriggerHeader}
    (accepted : (checkPipeline kind b s h).hasErrors = false) (single : kind ≠ .query) :
    NamesPipeline h.pipeline s.deferred := by
  unfold checkPipeline at accepted
  split at accepted
  · rename_i none
    split at accepted
    · cases accepted
    · rename_i hn
      exact .inr (by simpa [single] using hn)
  · rename_i v known
    split at accepted
    · cases accepted
    · rename_i hn
      cases named : v.pipelineName? with
      | none => simp [named] at hn
      | some name => exact .inl ⟨v, name, known, named⟩

theorem wellFormed_ofKind {kind : TriggerKind} {name : String} {t : Trigger}
    (accepted : ofKind kind name b ctx = .ok t) : t.kind = kind ∧ t.WellFormed := by
  unfold ofKind at accepted
  dsimp only at accepted
  obtain ⟨clean, rfl⟩ := Diagnostics.orValue_eq_ok.1 accepted
  simp only [Diagnostics.hasErrors_append, Bool.or_eq_false_iff] at clean
  obtain ⟨⟨⟨⟨-, settled⟩, -⟩, checked⟩, special⟩ := clean
  have complete := complete_of_gather settled
  generalize Diagnostics.gather (settle ctx) {} _ = taken at checked special complete ⊢
  obtain ⟨spec, found, rfl, schedule, query⟩ := spec_of_accepted kind complete special
  simp only [found, Option.getD_some]
  exact ⟨rfl, schedule, namesPipeline_of_checked checked, query,
    fun h => evaluateArguments_known h _⟩

/-- An accepted trigger is well formed and of the kind that the first label of its block spells. -/
theorem wellFormed_ofBlock {t : Trigger} (accepted : ofBlock b ctx = .ok t) :
    b.label? 0 = some (Keyword.spell t.kind) ∧ t.WellFormed := by
  unfold ofBlock at accepted
  split at accepted
  · rename_i word name labels
    split at accepted
    · cases accepted
    · rename_i kind known
      obtain ⟨rfl, wellFormed⟩ := wellFormed_ofKind accepted
      refine ⟨?_, wellFormed⟩
      rw [Block.label?, labels, Keyword.spell_of_parse known]
      rfl
  · cases accepted

/-- A query whose text comes with the firing and that has a capture. -/
def queryBlock : Block where
  type := "trigger"
  labels := ["query", "q"]
  attributes := [⟨"schedule", .literal (.string " daily "), default⟩,
    ⟨"sql", .term (.access (.variable "self") [.member "sql"]), default⟩,
    ⟨"database", .literal (.string "db"), default⟩,
    ⟨"primary_key", .literal (.string "id"), default⟩]
  blocks := [{ Block.ofType "capture" ["update"] with
    attributes := [⟨"pipeline", .literal (.string "p"), default⟩] }]
  location := default
  diagnostics := []

theorem wellFormed_ofBlock_query :
    ∃ t, ofBlock queryBlock ⟨.empty, {}, .plain, .brief⟩ = .ok t ∧
      t.spec.captures.map (·.1) = [.update] ∧ t.kind = .query ∧ t.WellFormed := by
  obtain ⟨t, accepted, captures, kind⟩ :
      ∃ t, ofBlock queryBlock ⟨.empty, {}, .plain, .brief⟩ = .ok t ∧
      t.spec.captures.map (·.1) = [.update] ∧ t.kind = .query := by decide
  exact ⟨t, accepted, captures, kind, (wellFormed_ofBlock accepted).2⟩

end Trigger
end PipelineResolution
