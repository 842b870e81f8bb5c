import PipelineResolution.Proofs.Expression.Closed
import PipelineResolution.Proofs.Resolution.Early
import PipelineResolution.Proofs.Step.Effects
import PipelineResolution.Proofs.Step.Sufficiency

/-!
# What a resolved step waits for

A step that counts as resolved has no deferred attribute and no deferred body of a policy. The
bodies of its throws, its outputs and the collection of its loop are not counted: they may wait all
the same, and they do as soon as one of them refers to a name.
-/
namespace PipelineResolution
open Environment (Constant)

/-- What has been found of a body, with one attribute more. -/
def Attribute.evaluated (env : Environment) (found : Dict Value × Diagnostics) (a : Attribute) :
    Dict Value × Diagnostics :=
  match a.expression.evaluate env with
  | .ok v => (found.1.insert a.name v, found.2)
  | .error ds => (found.1, found.2 ++ ds.orAbout a.location)

namespace Block
variable {b : Block} {name : String} {env env' : Environment}

def expressions (b : Block) : List Expression := b.attributes.map (·.expression)

theorem evaluateBody_eq (b : Block) (env : Environment) : b.evaluateBody env =
    Diagnostics.orValue (b.attributes.foldl (Attribute.evaluated env) ([], [])).2
      (b.attributes.foldl (Attribute.evaluated env) ([], [])).1 := rfl

theorem evaluateBody_congr (same : ∀ e ∈ b.expressions, e.evaluate env = e.evaluate env') :
    b.evaluateBody env = b.evaluateBody env' := by
  have step (found : Dict Value × Diagnostics) (a : Attribute) (ha : a ∈ b.attributes) :
      Attribute.evaluated env found a = Attribute.evaluated env' found a := by
    unfold Attribute.evaluated
    rw [same _ (List.mem_map_of_mem ha)]
  rw [evaluateBody_eq, evaluateBody_eq, List.foldl_ext _ _ _ step]

theorem reports_evaluated (as : List Attribute) (found : Dict Value × Diagnostics) :
    (as.foldl (Attribute.evaluated env) found).2 = found.2 ++
      as.flatMap fun a => (reportsOf (a.expression.evaluate env)).orAbout a.location := by
  induction as generalizing found with
  | nil => simp
  | cons a as ih =>
    rw [List.foldl_cons, ih, List.flatMap_cons, ← List.append_assoc, Attribute.evaluated]
    cases a.expression.evaluate env with
    | ok v => simp [reportsOf, Diagnostics.orAbout]
    | error ds => rfl

/-- The reports on a body are those on its attributes. -/
theorem reportsOf_evaluateBody (b : Block) (env : Environment) :
    reportsOf (b.evaluateBody env) =
      b.attributes.flatMap fun a => (reportsOf (a.expression.evaluate env)).orAbout a.location := by
  rw [evaluateBody_eq, Diagnostics.orValue, reports_evaluated, List.nil_append]
  split
  · rfl
  · rename_i accepted
    refine (List.flatMap_eq_nil_iff.2 fun a ha => ?_).symm
    have clean := Diagnostics.hasErrors_flatMap_eq_false.1 (Bool.eq_false_iff.2 accepted) a ha
    cases he : a.expression.evaluate env with
    | ok v => rfl
    | error ds =>
      rw [he, Diagnostics.hasErrors_orAbout, reportsOf,
        Expression.hasErrors_of_evaluateWith he] at clean
      cases clean

theorem reportsUnknown_evaluateBody : ReportsUnknown name (b.evaluateBody env) ↔
    ∃ e ∈ b.expressions, ReportsUnknown name (e.evaluate env) := by
  simp only [ReportsUnknown, reportsOf_evaluateBody, List.mem_flatMap, Diagnostics.orAbout,
    expressions, List.mem_map, Diagnostic.orAbout]
  constructor
  · rintro ⟨_, ⟨a, ha, d, hd, rfl⟩, kind⟩
    exact ⟨a.expression, ⟨a, ha, rfl⟩, d, hd, kind⟩
  · rintro ⟨_, ⟨a, ha, rfl⟩, d, hd, kind⟩
    exact ⟨_, ⟨a, ha, d, hd, rfl⟩, kind⟩

end Block

/-- Filling in fields reports mismatches only. -/
theorem Field.kind_fill {P : Type} {fields : List (Field P)} {nullable : List String}
    {location : Location} (body : Dict Value) (p : P) :
    ∀ d ∈ (fill fields nullable location body p).2, d.kind = .other := by
  unfold fill
  refine List.foldlRecOn (motive := fun found : P × Diagnostics => ∀ d ∈ found.2, d.kind = .other)
    body _ (fun _ h => nomatch h) fun found known entry _ => ?_
  dsimp only
  split
  · exact known
  · split
    · exact known
    · refine List.forall_mem_append.2 ⟨known, fun d hd => ?_⟩
      rw [List.mem_singleton.1 hd]
      rfl

theorem Throw.not_reportsUnknown_ofValues (name : String) (values : Dict Value)
    (location : Location) : ¬ReportsUnknown name (ofValues values location) := by
  rintro ⟨d, hd, kind⟩
  unfold ofValues Diagnostics.orValue at hd
  dsimp only at hd
  split at hd
  · have other := Field.kind_fill _ _ d hd
    rw [kind] at other
    cases other
  · cases hd

/-- The expressions that are evaluated at run time. -/
def Throw.expressions : Throw → List Expression
  | .decided .. => []
  | .deferred b => b.expressions

def NamedOutput.expressions (o : NamedOutput) : List Expression :=
  match o.content with
  | .known _ => []
  | .pending e => [e]

theorem Block.restsOn_evaluateBody (b : Block) : RestsOn b.evaluateBody b.expressions where
  congr _ _ := evaluateBody_congr
  reports _ _ := reportsUnknown_evaluateBody

theorem Throw.restsOn_evaluate (t : Throw) : RestsOn t.evaluate t.expressions := by
  cases t with
  | decided fires message => exact .ok _
  | deferred b =>
    exact b.restsOn_evaluateBody.bind fun name values =>
      not_reportsUnknown_ofValues name values b.location

theorem NamedOutput.restsOn_evaluate (o : NamedOutput) : RestsOn o.evaluate o.expressions := by
  obtain ⟨name, description, content, dependencies, location⟩ := o
  cases content with
  | known v => exact .ok v
  | pending e => exact (RestsOn.evaluate e).mapError (Diagnostics.kind_orAbout · _)

theorem Expression.resolved_iff {e : Expression} {location : Location} {ctx : ResolutionContext}
    {v : Value} : (e.resolve location ctx).outcome = .resolved v ↔
      e.evaluate ctx.environment = .ok v ∧ e.usesParam = false := by
  constructor
  · intro outcome
    have evaluated := evaluate_of_resolved outcome
    refine ⟨evaluated, Bool.eq_false_iff.2 fun bound => ?_⟩
    simp [resolve_of_evaluate evaluated, bound, Resolution.deferred] at outcome
  · rintro ⟨evaluated, unbound⟩
    simp [resolve_of_evaluate evaluated, unbound, Resolution.resolved]

namespace Step
variable {s : Step} {b : Block} {pipeline : String} {ctx : ResolutionContext}

theorem restsOn_collection (s : Step) : RestsOn s.collection s.forEach.toList := by
  unfold collection
  cases s.forEach with
  | none => exact .ok none
  | some e =>
    have evaluated := (RestsOn.evaluate e).mapError
      (Diagnostics.kind_orAbout · (s.location.child "for_each"))
    refine evaluated.bind fun name v => ?_
    split
    · rintro ⟨d, hd, -⟩
      cases hd
    · rintro ⟨d, hd, kind⟩
      cases List.mem_singleton.1 hd
      cases kind

/-- Nothing that the engine asks of a step depends on the environment. -/
structure WaitsForNothing (s : Step) : Prop where
  inputs : Constant s.inputs
  runs : Constant s.runs
  collection : Constant s.collection
  retry : ∀ defaults, Constant (s.retryPolicy · defaults)
  failure : Constant s.failurePolicy
  throws : ∀ t ∈ s.throws, Constant t.evaluate
  outputs : ∀ entry ∈ s.outputs, Constant entry.2.evaluate

/-- The expressions that wait without counting: the collection of the loop, the bodies of throws and
the values of outputs. -/
def uncounted (s : Step) : List Expression :=
  s.forEach.toList ++ s.throws.flatMap Throw.expressions ++ s.outputs.flatMap (·.2.expressions)

theorem deferred_of_isResolved (resolved : s.isResolved = true) :
    s.deferred = [] ∧ s.deferredBodies = [] := by
  simpa [isResolved, attributesResolved] using resolved

/-- What counts does not wait: the inputs, the predicate and the policies of a resolved step. -/
theorem constant_of_isResolved (resolved : s.isResolved = true) :
    Constant s.inputs ∧ Constant s.runs ∧ (∀ defaults, Constant (s.retryPolicy · defaults)) ∧
      Constant s.failurePolicy := by
  obtain ⟨attributes, bodies⟩ := deferred_of_isResolved resolved
  refine ⟨fun env env' => inputs_congr (by simp [attributes]), fun env env' => ?_,
    fun defaults env env' => ?_, fun env env' => ?_⟩
  · exact runs_congr fun e he => by simp [attributes, Dict.get?] at he
  · cases hr : s.retry <;> simp [retryPolicy, hr, bodies, Dict.get?]
  · cases hf : s.failure <;> simp [failurePolicy, hf, bodies, Dict.get?]

/-- A resolved step waits for nothing exactly when nothing that is not counted refers to a name. -/
theorem waitsForNothing_iff (resolved : s.isResolved = true)
    (written : ∀ e ∈ s.uncounted, e.Written) (covered : ∀ e ∈ s.uncounted, e.Covered) :
    s.WaitsForNothing ↔ ∀ e ∈ s.uncounted, e.roots = [] := by
  obtain ⟨inputs, runs, retry, failure⟩ := constant_of_isResolved resolved
  have inLoop {e : Expression} (he : e ∈ s.forEach.toList) : e ∈ s.uncounted :=
    List.mem_append_left _ (List.mem_append_left _ he)
  have inThrow {t : Throw} (ht : t ∈ s.throws) {e : Expression} (he : e ∈ t.expressions) :
      e ∈ s.uncounted :=
    List.mem_append_left _ (List.mem_append_right _ (List.mem_flatMap.2 ⟨t, ht, he⟩))
  have inOutput {entry : String × NamedOutput} (ho : entry ∈ s.outputs) {e : Expression}
      (he : e ∈ entry.2.expressions) : e ∈ s.uncounted :=
    List.mem_append_right _ (List.mem_flatMap.2 ⟨entry, ho, he⟩)
  have collection_iff := s.restsOn_collection.constant_iff
    (fun e he => written e (inLoop he)) fun e he => covered e (inLoop he)
  have throw_iff (t : Throw) (ht : t ∈ s.throws) := t.restsOn_evaluate.constant_iff
    (fun e he => written e (inThrow ht he)) fun e he => covered e (inThrow ht he)
  have output_iff (entry : String × NamedOutput) (ho : entry ∈ s.outputs) :=
    entry.2.restsOn_evaluate.constant_iff
      (fun e he => written e (inOutput ho he)) fun e he => covered e (inOutput ho he)
  constructor
  · intro nothing e he
    rcases List.mem_append.1 he with he | he
    · rcases List.mem_append.1 he with he | he
      · exact collection_iff.1 nothing.collection e he
      · obtain ⟨t, ht, he⟩ := List.mem_flatMap.1 he
        exact (throw_iff t ht).1 (nothing.throws t ht) e he
    · obtain ⟨entry, ho, he⟩ := List.mem_flatMap.1 he
      exact (output_iff entry ho).1 (nothing.outputs entry ho) e he
  · intro closed
    exact
      { inputs, runs, retry, failure
        collection := collection_iff.2 fun e he => closed e (inLoop he)
        throws := fun t ht => (throw_iff t ht).2 fun e he => closed e (inThrow ht he)
        outputs := fun entry ho => (output_iff entry ho).2 fun e he => closed e (inOutput ho he) }

/-- An accepted loop goes through a list or a map where its collection is known. -/
def Looped (ctx : ResolutionContext) (s : Step) : Prop :=
  ∀ e v, s.forEach = some e → e.evaluate ctx.environment = .ok v → e.usesParam = false →
    isCollection v = true

theorem looped_setAttribute (s : Step) (a : Attribute) (h : s.Looped ctx)
    (accepted : (s.setAttribute ctx a).2.hasErrors = false) :
    (s.setAttribute ctx a).1.Looped ctx := by
  by_cases named : a.name = "for_each"
  · have common : commonNames.contains a.name = true := by rw [named]; rfl
    rw [setAttribute, if_pos common] at accepted ⊢
    have chosen : (s.setCommon a ctx).1.forEach = some a.expression := by
      cases outcome : (a.resolve ctx).outcome <;> simp [setCommon, outcome, named, storeCommon]
    intro e v he value unbound
    cases chosen.symm.trans he
    have outcome : (a.resolve ctx).outcome = .resolved v :=
      Expression.resolved_iff.2 ⟨value, unbound⟩
    simp only [setCommon, outcome, named, storeCommon] at accepted
    by_contra refused
    rw [if_neg refused] at accepted
    cases accepted
  · obtain ⟨effect, under, acts⟩ := exists_effect ctx a s.kind
    have kept : (effect.on s).forEach = s.forEach :=
      congrArg (Option.or · s.forEach) (under.heading.forEach named)
    rw [acts s rfl]
    intro e v he
    exact h e v (kept ▸ he)

theorem looped_of_ofBlock (accepted : ofBlock b pipeline ctx = .ok s) : s.Looped ctx := by
  obtain ⟨word, name, kind, -, -, taken, -, rfl⟩ := exists_of_ofBlock accepted
  simp only [takeIn_eq, Diagnostics.hasErrors_append, Bool.or_eq_false_iff] at taken
  have attributes : ((start b kind name pipeline).setAttributes b ctx).1.Looped ctx :=
    Diagnostics.gather_preserves looped_setAttribute b.attributes (fun _ _ h => nomatch h) taken.1
  have untouched :
      (((start b kind name pipeline).setAttributes b ctx).1.setBlocks b ctx).1.heading =
        ((start b kind name pipeline).setAttributes b ctx).1.heading := heading_setBlocks b _
  intro e v he
  exact attributes e v ((congrArg Heading.forEach untouched).symm.trans he)

/-- What a step that counts as resolved still waits for. Its inputs, its predicate and its policies
are the same in all environments. It waits for nothing exactly when neither the collection of its
loop nor a throw or an output that was kept refers to a name; for that, a directive must not hide
names. And where the document knows the
collection, every run that binds all names of the document goes through the same one. -/
theorem waits_of_isResolved (accepted : ofBlock b pipeline ctx = .ok s)
    (resolved : s.isResolved = true) (written : ∀ e ∈ s.uncounted, e.Written)
    (covered : ∀ e ∈ s.uncounted, e.directiveFree = true ∨ e.Covered) :
    (Constant s.inputs ∧ Constant s.runs ∧ (∀ defaults, Constant (s.retryPolicy · defaults)) ∧
      Constant s.failurePolicy) ∧
    (s.WaitsForNothing ↔ ∀ e ∈ s.uncounted, e.roots = []) ∧
    ∀ e v, s.forEach = some e → (e.resolve s.location ctx).outcome = .resolved v →
      ∀ env : Environment, ctx.environment.Includes env → ctx.environment.Apart env →
        ctx.environment.bindings.Sorted → env.bindings.Sorted →
          s.collection env = .ok (some v) := by
  have covered (e : Expression) (he : e ∈ s.uncounted) : e.Covered :=
    (covered e he).elim Expression.covered_of_directiveFree id
  refine ⟨constant_of_isResolved resolved, waitsForNothing_iff resolved written covered, ?_⟩
  intro e v he outcome env includes apart sorted sorted'
  obtain ⟨early, unbound⟩ := Expression.resolved_iff.1 outcome
  have late := e.evaluate_within includes apart sorted sorted' v early
  have isCollection := looped_of_ofBlock accepted e v he early unbound
  simp only [collection, he, late]
  exact if_pos isCollection

def throwBlock (condition : Expression) : Block :=
  ⟨"throw", [], [⟨"if", condition, default⟩], [], default, []⟩

/-- Whether the run that is over says that it is done. -/
def doneResult : Expression := .term (.access (.variable "result") [.member "done"])

/-- A pause for every element of a list, with a throw under a condition. -/
def throwingBlock (condition : Expression) : Block where
  type := "step"
  labels := ["sleep", "s"]
  attributes := [
    ⟨"duration", .literal (.string "1s"), default⟩,
    ⟨"for_each", .literal (.list [.string "a"]), default⟩]
  blocks := [throwBlock condition]
  location := default
  diagnostics := []

/-- The document knows the list and the condition, so nothing waits. -/
theorem waits_of_isResolved_known :
    ∃ s, ofBlock (throwingBlock (.literal (.bool false))) "p" ⟨.empty, {}, .plain, .brief⟩ = .ok s ∧
      s.isResolved = true ∧ s.uncounted = [.literal (.list [.string "a"])] ∧ s.WaitsForNothing := by
  obtain ⟨s, accepted, resolved, waiting⟩ :
      ∃ s, ofBlock (throwingBlock (.literal (.bool false))) "p" ⟨.empty, {}, .plain, .brief⟩ = .ok s ∧
        s.isResolved = true ∧ s.uncounted = [.literal (.list [.string "a"])] := ⟨_, rfl, rfl, rfl⟩
  have spelled : Expression.ofYaml default (.sequence [.string "a"]) =
      .ok (.literal (.list [.string "a"])) := rfl
  refine ⟨s, accepted, resolved, waiting,
    (waits_of_isResolved accepted resolved ?_ ?_).2.1.2 ?_⟩
  · simpa [waiting] using Expression.Written.yaml spelled
  · simpa [waiting] using .inl (show Expression.directiveFree _ = true from rfl)
  · simp only [waiting, List.forall_mem_singleton]
    rfl

/-- A throw on the result of the run is kept for run time, and the step counts as resolved. -/
theorem not_waitsForNothing :
    ¬∀ (b : Block) (pipeline : String) (ctx : ResolutionContext) (s : Step),
      ofBlock b pipeline ctx = .ok s → s.isResolved = true → s.WaitsForNothing := by
  intro claim
  obtain ⟨s, accepted, resolved, throws⟩ :
      ∃ s, ofBlock (throwingBlock doneResult) "p" ⟨.empty, {}, .plain, .brief⟩ = .ok s ∧
        s.isResolved = true ∧ s.throws = [.deferred (throwBlock doneResult)] := ⟨_, rfl, rfl, rfl⟩
  have constant := (claim _ _ _ s accepted resolved).throws (.deferred (throwBlock doneResult))
    (by simp [throws])
  have same := constant .empty ⟨[("result", .map [("done", .bool true)])]⟩
  have late : (Throw.deferred (throwBlock doneResult)).evaluate
      ⟨[("result", .map [("done", .bool true)])]⟩ = .ok (.decided (some true) none) := rfl
  rw [late] at same
  cases same

end Step
end PipelineResolution
