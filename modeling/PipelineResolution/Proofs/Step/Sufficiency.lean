import PipelineResolution.Proofs.Expression.Completeness
import PipelineResolution.Proofs.Step.Gathering
import PipelineResolution.Step.Run

/-!
# Dependencies suffice at run time

What an accepted step evaluates at run time is the same in two environments that hold the same
outputs of its dependencies, whatever other steps have put out. The references to steps have to be
visible for that: none hidden in a directive, and the kind and name of a step given as keys. Without
directives none is hidden.
-/
namespace PipelineResolution

theorem Datum.lookup_entriesOfValues (d : Dict Value) (key : String) :
    lookup (entriesOfValues d) key = (d.get? key).map ofValue := by
  induction d with
  | nil => rfl
  | cons e d ih =>
    obtain ⟨k, v⟩ := e
    by_cases hk : k = key
    · simp [lookup, entriesOfValues, Dict.get?, hk]
    · rw [Dict.get?, if_neg hk, ← ih]
      simp [lookup, entriesOfValues, hk]

namespace Environment

theorem entriesOf_get? {v : Option Value} {key : String} {x : Value}
    (h : (entriesOf v).get? key = some x) : ∃ entries, v = some (.map entries) ∧
      Dict.get? entries key = some x := by
  unfold entriesOf at h
  split at h
  · exact ⟨_, rfl, h⟩
  · cases h

variable {base env env' : Environment} {kinds kinds' : Dict Value}

/-- Environments agree on what lies below a step whose output they share, and below what is no kind
of step. -/
theorem agree_step (h : RunsOver base env) (h' : RunsOver base env')
    (bound : env.get? "step" = some (.map kinds)) (bound' : env'.get? "step" = some (.map kinds'))
    (kind name : String) (rest : List PathStep)
    (same : ∀ k : StepKind, Keyword.spell k = kind →
      ∃ v, env.output? kind name = some v ∧ env'.output? kind name = some v) :
    env.scope.Agree env'.scope ⟨"step", .key kind :: .key name :: rest⟩ := by
  have read {env : Environment} {kinds : Dict Value} (h : RunsOver base env)
      (bound : env.get? "step" = some (.map kinds)) :
      env.scope.get? "step" = some (.object (Datum.entriesOfValues kinds)) := by
    rw [get?_scope, find?_step h.sorted, bound]
    rfl
  refine .bound (read h bound) (read h' bound') ?_
  by_cases hk : ∃ k : StepKind, Keyword.spell k = kind
  · obtain ⟨k, hk⟩ := hk
    obtain ⟨v, hv, hv'⟩ := same k hk
    have below {env : Environment} {kinds : Dict Value}
        (bound : env.get? "step" = some (.map kinds)) (hv : env.output? kind name = some v) :
        ∃ names, Datum.lookup (Datum.entriesOfValues kinds) kind =
            some (.object (Datum.entriesOfValues names)) ∧
          Datum.lookup (Datum.entriesOfValues names) name = some (.ofValue v) := by
      rw [output?, bound] at hv
      obtain ⟨names, hn, hv⟩ := entriesOf_get? hv
      refine ⟨names, ?_, ?_⟩
      · rw [Datum.lookup_entriesOfValues, show kinds.get? kind = _ from hn]
        rfl
      · rw [Datum.lookup_entriesOfValues, hv]
        rfl
    obtain ⟨names, left, found⟩ := below bound hv
    obtain ⟨names', left', found'⟩ := below bound' hv'
    exact .under left left' (.under found found' (.here _ rest))
  · have absent {env : Environment} {kinds : Dict Value} (h : RunsOver base env)
        (bound : env.get? "step" = some (.map kinds)) :
        Datum.lookup (Datum.entriesOfValues kinds) kind = none := by
      have hn : kinds.get? kind = none := by
        cases hv : kinds.get? kind with
        | none => rfl
        | some v => exact absurd (h.kinds kind v (by rw [bound]; exact hv)) hk
      rw [Datum.lookup_entriesOfValues, hn]
      rfl
    exact .absent (absent h bound) (absent h' bound')

end Environment

namespace Expression
variable {e : Expression} {env env' : Environment}

/-- Every reading of `step` gives the kind and the name of a step as keys. -/
def Keyed (e : Expression) : Prop :=
  ∀ r ∈ e.reads, r.root = "step" → ∀ s ∈ r.path.take 2, ∃ name, s = .key name

/-- Every reading of `step` is a reference that gives the kind and the name of a step as keys. -/
def Overt (e : Expression) : Prop :=
  ∀ r ∈ e.reads, r.root = "step" → r.reference ∈ e.references ∧
    ∀ s ∈ r.path.take 2, ∃ name, s = .key name

instance (s : PathStep) : Decidable (∃ name, s = .key name) :=
  match s with
  | .key name => .isTrue ⟨name, rfl⟩
  | .number _ => .isFalse fun ⟨_, h⟩ => nomatch h

instance (e : Expression) : Decidable e.Keyed :=
  inferInstanceAs (Decidable (∀ r ∈ e.reads, r.root = "step" → ∀ s ∈ r.path.take 2, _))

instance (e : Expression) : Decidable e.Overt :=
  inferInstanceAs (Decidable (∀ r ∈ e.reads, r.root = "step" → _ ∧ _))

/-- What is hidden from the dependencies is hidden by a directive, or reads the outputs of steps
without a kind and a name. -/
theorem overt_of_directiveFree (h : e.directiveFree = true) (keyed : e.Keyed) : e.Overt :=
  fun r hr hs => ⟨reference_mem_of_directiveFree h hr, keyed r hr hs⟩

theorem evaluate_congr (binds : ∀ name, env.binds name = env'.binds name)
    (agree : env.scope.AgreeOn env'.scope e.reads) : e.evaluate env = e.evaluate env' := by
  have hu : e.unknownRoots env = e.unknownRoots env' := by simp only [unknownRoots, binds]
  unfold evaluate evaluateWith
  split
  · rfl
  · rw [hu, eval_congr e agree]

end Expression

namespace Step
variable {s : Step} {env env' : Environment}

theorem inputs_congr
    (same : ∀ entry ∈ s.deferred, entry.2.evaluate env = entry.2.evaluate env') :
    s.inputs env = s.inputs env' := by
  have hfill (entries : List (String × Expression)) (f : Filled)
      (h : ∀ entry ∈ entries, entry.2.evaluate env = entry.2.evaluate env') :
      entries.foldlM (s.fill env) f = entries.foldlM (s.fill env') f := by
    induction entries generalizing f with
    | nil => rfl
    | cons entry entries ih =>
      obtain ⟨he, h⟩ := List.forall_mem_cons.1 h
      rw [List.foldlM_cons, List.foldlM_cons, fill, fill, he]
      simp only [ih _ h]
  unfold inputs
  rw [hfill _ _ same]

theorem runs_congr (same : ∀ e, s.deferred.get? "if" = some e → e.evaluate env = e.evaluate env') :
    s.runs env = s.runs env' := by
  unfold runs
  split
  · rfl
  · rename_i e he
    rw [same e he]

theorem collection_congr (same : ∀ e, s.forEach = some e → e.evaluate env = e.evaluate env') :
    s.collection env = s.collection env' := by
  unfold collection
  split
  · rfl
  · rename_i e he
    rw [same e he]

/-- The outputs that a step needs: those of its dependencies, and its own where it refers to it. -/
def Needs (s : Step) (target : String) : Prop :=
  target ∈ s.dependencies.steps ∨
    target = s.fullName ∧ ∃ e ∈ s.expressions, target ∈ e.targetsOf "step"

theorem agreeOn_reads {b : Block} {pipeline : String} {ctx : ResolutionContext}
    {base : Environment} (accepted : ofBlock b pipeline ctx = .ok s)
    (free : ctx.environment.binds "step" = false) {e : Expression} (he : e ∈ s.expressions)
    (overt : e.Overt) (h : base.RunsOver env) (h' : base.RunsOver env')
    (ran : ∃ kinds, env.get? "step" = some (.map kinds))
    (ran' : ∃ kinds, env'.get? "step" = some (.map kinds))
    (same : ∀ (kind : StepKind) (name : String), s.Needs (Keyword.spell kind ++ "." ++ name) →
      ∃ v, env.output? (Keyword.spell kind) name = some v ∧
        env'.output? (Keyword.spell kind) name = some v) :
    env.scope.AgreeOn env'.scope e.reads := by
  intro r hr
  by_cases hs : r.root = "step"
  · obtain ⟨hmem, hkeys⟩ := overt r hr hs
    have hto : r.reference ∈ e.referencesTo "step" :=
      List.mem_filter.2 ⟨hmem, beq_iff_eq.2 hs⟩
    obtain ⟨kind, name, rest, hp, hm⟩ := ofBlock_stepsIn free accepted e he _ hto
    obtain ⟨root, path⟩ := r
    subst hs
    match path with
    | [] | [_] => simp [Read.reference] at hp
    | first :: second :: rest' =>
      obtain ⟨k, rfl⟩ := hkeys first (by simp)
      obtain ⟨n, rfl⟩ := hkeys second (by simp)
      simp only [Read.reference, List.map_cons, PathStep.text, List.cons.injEq] at hp
      obtain ⟨rfl, rfl, -⟩ := hp
      obtain ⟨kinds, bound⟩ := ran
      obtain ⟨kinds', bound'⟩ := ran'
      refine Environment.agree_step h h' bound bound' k n rest' fun sk hk => ?_
      subst hk
      refine same sk n ((List.mem_cons.1 hm).symm.imp_right fun hself => ⟨hself, e, he, ?_⟩)
      exact List.mem_eraseDups.2 (List.mem_map.2 ⟨_, hto, rfl⟩)
  · refine .of_get?_eq ?_
    rw [Environment.get?_scope, Environment.get?_scope, h.find?_eq _ hs, h'.find?_eq _ hs]

/-- Two environments that hold the same outputs of what a step needs give it the same inputs, the
same predicate and the same collection, whatever the outputs of all other steps are. Without
directives the step only has to give the kind and the name of every step that it reads. -/
theorem dependencies_suffice {b : Block} {pipeline : String} {ctx : ResolutionContext}
    (accepted : ofBlock b pipeline ctx = .ok s) (free : ctx.environment.binds "step" = false)
    (overt : ∀ e ∈ s.expressions, e.directiveFree = true ∧ e.Keyed ∨ e.Overt)
    {base : Environment} (sorted : base.bindings.Sorted) (unbound : base.binds "step" = false)
    {runs runs' : List (StepKind × String × Output)} (ran : runs ≠ []) (ran' : runs' ≠ [])
    (same : ∀ (kind : StepKind) (name : String), s.Needs (Keyword.spell kind ++ "." ++ name) →
      ∃ v, (base.record runs).output? (Keyword.spell kind) name = some v ∧
        (base.record runs').output? (Keyword.spell kind) name = some v) :
    s.inputs (base.record runs) = s.inputs (base.record runs') ∧
      s.runs (base.record runs) = s.runs (base.record runs') ∧
      s.collection (base.record runs) = s.collection (base.record runs') := by
  have h := (Environment.runsOver_refl sorted unbound).record runs
  have h' := (Environment.runsOver_refl sorted unbound).record runs'
  have step := base.get?_record ran
  have step' := base.get?_record ran'
  have binds (name : String) : (base.record runs).binds name = (base.record runs').binds name := by
    by_cases hs : name = "step"
    · obtain ⟨kinds, bound⟩ := step
      obtain ⟨kinds', bound'⟩ := step'
      rw [hs, Environment.binds_iff.2 ⟨_, bound⟩, Environment.binds_iff.2 ⟨_, bound'⟩]
    · exact congrArg Option.isSome ((h.get?_eq name hs).trans (h'.get?_eq name hs).symm)
  have evaluates (e : Expression) (he : e ∈ s.expressions) :
      e.evaluate (base.record runs) = e.evaluate (base.record runs') := by
    have visible : e.Overt :=
      (overt e he).elim (fun ⟨plain, keyed⟩ => Expression.overt_of_directiveFree plain keyed) id
    exact Expression.evaluate_congr binds
      (agreeOn_reads accepted free he visible h h' step step' same)
  refine ⟨inputs_congr fun entry he => ?_, runs_congr fun e he => ?_,
    collection_congr fun e he => ?_⟩
  · exact evaluates _ (List.mem_append_left _ (List.mem_map_of_mem he))
  · exact evaluates e (List.mem_append_left _ (List.mem_map_of_mem (Dict.mem_of_get? he)))
  · exact evaluates e (List.mem_append_right _ (Option.mem_toList.2 he))

/-- The block of a step that transforms a term. -/
def transforming (t : Term) : Block :=
  ⟨"step", ["transform", "t"], [⟨"value", .term t, default⟩], [], default, []⟩

/-- A value inside the output of a step `sleep.a`. -/
def sleepOutput : Term := .access (.variable "step") [.member "sleep", .member "a", .member "ok"]

/-- An output whose only entry is `ok`. -/
def okOutput (b : Bool) : Output := ⟨"", [("ok", .bool b)], []⟩

/-- The decoded step, which waits for some targets. -/
def transformStep (t : Term) (targets : List String) : Step :=
  { ofKind .transform "t" "p" with
    deferred := [("value", .term t)], dependencies := ⟨targets, []⟩, location := default }

theorem needs_transformStep {t : Term} {targets : List String} {target : String}
    (own : (Expression.term t).targetsOf "step" = targets)
    (h : (transformStep t targets).Needs target) : target ∈ targets := by
  rcases h with h | ⟨-, e, he, h⟩
  · exact h
  · rw [List.mem_singleton.1 he, own] at h
    exact h

theorem eq_of_target {kind : StepKind} {name : String}
    (h : Keyword.spell kind ++ "." ++ name = "sleep.a") : kind = .sleep ∧ name = "a" := by
  have hs := congrArg String.toList h
  rw [String.toList_append, String.toList_append] at hs
  cases kind <;> simp [Keyword.spell] at hs
  exact ⟨rfl, String.toList_inj.1 (by simpa using hs)⟩

/-- The input of a step that needs `sleep.a` does not depend on another sleep. -/
theorem dependencies_suffice_sleep :
    (transformStep sleepOutput ["sleep.a"]).inputs
        (Environment.empty.record [(.sleep, "a", okOutput true)]) =
      (transformStep sleepOutput ["sleep.a"]).inputs
        (Environment.empty.record
          [(.sleep, "b", okOutput false), (.sleep, "a", okOutput true)]) := by
  have accepted : ofBlock (transforming sleepOutput) "p" ⟨.empty, {}, .plain, .brief⟩ =
      .ok (transformStep sleepOutput ["sleep.a"]) := rfl
  refine (dependencies_suffice accepted rfl ?_ .nil rfl (by decide) (by decide) ?_).1
  · intro e he
    rw [List.mem_singleton.1 he]
    exact .inl ⟨rfl, by decide⟩
  · intro kind name h
    obtain ⟨rfl, rfl⟩ := eq_of_target (List.mem_singleton.1 (needs_transformStep rfl h))
    exact ⟨(okOutput true).toValue, rfl, rfl⟩

/-- The same reference where only a directive holds it. -/
def hiddenOutput : Term :=
  .template "%\x7b if step.sleep.a.ok \x7dx%\x7b endif \x7d"
    [.branch ⟨false, false⟩ sleepOutput ⟨false, false⟩ [.text "x"] ⟨false, false⟩ []]

/-- A step with a hidden reference has no dependency, and its input changes with an output. -/
theorem inputs_hiddenOutput :
    ¬∀ (b : Block) (pipeline : String) (ctx : ResolutionContext) (s : Step),
      ofBlock b pipeline ctx = .ok s → ctx.environment.binds "step" = false →
      ctx.environment.binds "credential" = false →
      ∀ base : Environment, base.bindings.Sorted → base.binds "step" = false →
      ∀ runs runs' : List (StepKind × String × Output), runs ≠ [] → runs' ≠ [] →
      (∀ (kind : StepKind) (name : String), s.Needs (Keyword.spell kind ++ "." ++ name) →
        ∃ v, (base.record runs).output? (Keyword.spell kind) name = some v ∧
          (base.record runs').output? (Keyword.spell kind) name = some v) →
      s.inputs (base.record runs) = s.inputs (base.record runs') ∧
        s.runs (base.record runs) = s.runs (base.record runs') ∧
        s.collection (base.record runs) = s.collection (base.record runs') := by
  intro claim
  have accepted : ofBlock (transforming hiddenOutput) "p" ⟨.empty, {}, .plain, .brief⟩ =
      .ok (transformStep hiddenOutput []) := rfl
  have equal := (claim _ _ _ _ accepted rfl rfl .empty .nil rfl
    [(.sleep, "a", okOutput true)] [(.sleep, "a", okOutput false)] (by decide) (by decide)
    fun kind name h => absurd (needs_transformStep rfl h) List.not_mem_nil).1
  have left : (transformStep hiddenOutput []).inputs
      (Environment.empty.record [(.sleep, "a", okOutput true)]) =
        .ok [("value", .string "x")] := rfl
  have right : (transformStep hiddenOutput []).inputs
      (Environment.empty.record [(.sleep, "a", okOutput false)]) =
        .ok [("value", .string "")] := rfl
  rw [left, right] at equal
  simp at equal

end Step
end PipelineResolution
