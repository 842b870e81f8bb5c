import PipelineResolution.Proofs.Step.Exact
import PipelineResolution.Proofs.Step.Writes

/-!
# Resolving a step again

An attribute does the same to all steps of a kind: it puts something over what is said about the
step, adds what the step waits for, and is kept among the settings. So resolving the attributes of an
accepted step again finds everything in place already, with two exceptions. A step that refers to
itself is made to wait for itself, which is only taken back at the end of decoding; and what an inner
block has set is lost where the body sets it as well.
-/
namespace PipelineResolution

/-- What a step says about itself apart from its settings. -/
structure Heading where
  title : Option String := none
  description : Option String := none
  timeout : Option Value := none
  condition : Option Bool := none
  forEach : Option Expression := none

/-- A heading over another one, which shows where the first says nothing. -/
def Heading.over (p q : Heading) : Heading where
  title := p.title.or q.title
  description := p.description.or q.description
  timeout := p.timeout.or q.timeout
  condition := p.condition.or q.condition
  forEach := p.forEach.or q.forEach

namespace Attribute

/-- An edge that an attribute makes its step wait for. -/
def Awaits (ctx : ResolutionContext) (a : Attribute) (edge : Edge) : Prop :=
  edge ∈ (a.resolve ctx).dependencies ∨ edge ∈ a.namedEdges ctx

/-- Some dependencies with all that an attribute makes its step wait for. -/
def await (ctx : ResolutionContext) (d : DependencySet) (a : Attribute) : DependencySet :=
  (a.namedEdges ctx).foldl .add (d.merge (a.resolve ctx).dependencies)

end Attribute

instance (ctx : ResolutionContext) (a : Attribute) (edge : Edge) : Decidable (a.Awaits ctx edge) :=
  inferInstanceAs (Decidable (_ ∨ _))

namespace Attribute
variable {ctx : ResolutionContext} {a : Attribute} {as : List Attribute} {d : DependencySet}
  {edge : Edge}

theorem mem_await : edge ∈ a.await ctx d ↔ edge ∈ d ∨ a.Awaits ctx edge := by
  rw [await, DependencySet.mem_foldl_add, DependencySet.mem_merge, or_assoc]
  rfl

theorem targets_await {kind : EdgeKind}
    (h : ∀ target, a.Awaits ctx ⟨kind, target⟩ → target ∈ d.targets kind) :
    (a.await ctx d).targets kind = d.targets kind := by
  have merged : (d.merge (a.resolve ctx).dependencies).targets kind = d.targets kind := by
    rw [DependencySet.targets_merge]
    exact DependencySet.foldl_push_of_subset fun target ht => h target (.inl ht)
  rw [await, DependencySet.targets_foldl_add, merged]
  refine DependencySet.foldl_push_of_subset fun target ht => h target (.inr ?_)
  simp only [DependencySet.targetsOf, List.mem_map, List.mem_filter, decide_eq_true_eq] at ht
  obtain ⟨edge, ⟨he, rfl⟩, rfl⟩ := ht
  exact he

theorem mem_foldl_await :
    edge ∈ as.foldl (await ctx) d ↔ edge ∈ d ∨ ∃ a ∈ as, a.Awaits ctx edge := by
  induction as generalizing d with
  | nil => simp
  | cons a as ih => rw [List.foldl_cons, ih, mem_await, List.exists_mem_cons_iff, or_assoc]

theorem targets_foldl_await {kind : EdgeKind}
    (h : ∀ a ∈ as, ∀ target, a.Awaits ctx ⟨kind, target⟩ → target ∈ d.targets kind) :
    (as.foldl (await ctx) d).targets kind = d.targets kind := by
  induction as generalizing d with
  | nil => rfl
  | cons a as ih =>
    obtain ⟨first, rest⟩ := List.forall_mem_cons.1 h
    have kept := targets_await first
    rw [List.foldl_cons, ih (by simpa only [kept] using rest), kept]

end Attribute

namespace Step
variable {s : Step} {ctx : ResolutionContext} {kind : StepKind}

def heading (s : Step) : Heading := ⟨s.title, s.description, s.timeout, s.condition, s.forEach⟩

/-- The step with something put over its heading. -/
def headed (s : Step) (p : Heading) : Step :=
  let h := p.over s.heading
  { s with
    title := h.title
    description := h.description
    timeout := h.timeout
    condition := h.condition
    forEach := h.forEach }

/-- A change that is the same for all steps of a kind, apart from their settings: what it puts over
the heading, and how the dependencies grow. -/
def Puts (kind : StepKind) (P : Step → Step) (p : Heading) (grow : DependencySet → DependencySet) :
    Prop :=
  ∀ s, s.kind = kind → ∃ x, x.spec.kind = kind ∧ P s = (s.headed p).taking x (grow s.dependencies)

/-- A change that all steps of a kind take without a report. -/
def Taken (kind : StepKind) (F : Step → Step × Diagnostics) (grow : DependencySet → DependencySet) :
    Prop :=
  (∃ p, Puts kind (fun s => (F s).1) p grow) ∧ ∀ s, s.kind = kind → (F s).2 = []

/-- A change that no step of a kind takes without an error. -/
def Refused (kind : StepKind) (F : Step → Step × Diagnostics) : Prop :=
  ∀ s, s.kind = kind → (F s).2.hasErrors = true

/-- A change that all steps of a kind take alike, or that none of them takes. -/
def Alike (kind : StepKind) (F : Step → Step × Diagnostics) (grow : DependencySet → DependencySet) :
    Prop :=
  Taken kind F grow ∨ Refused kind F

theorem headed_headed (s : Step) (p q : Heading) : (s.headed p).headed q = s.headed (q.over p) := by
  simp only [headed, heading, Heading.over, Option.or_assoc]

theorem headed_heading (s : Step) : s.headed s.heading = s := by
  simp only [headed, heading, Heading.over, Option.or_self]

section
variable {F G : Step → Step × Diagnostics} {P Q : Step → Step} {p q : Heading}
  {grow grow' : DependencySet → DependencySet}

theorem puts_headed (p : Heading) : Puts kind (·.headed p) p fun d => d :=
  fun s hk => ⟨s.intake, hk, rfl⟩

theorem Puts.kind_eq (h : Puts kind P p grow) (hk : s.kind = kind) : (P s).kind = kind := by
  obtain ⟨x, hx, taken⟩ := h s hk
  rw [taken]
  exact hx

theorem Puts.comp (hQ : Puts kind Q q grow') (hP : Puts kind P p grow) :
    Puts kind (fun s => Q (P s)) (q.over p) fun d => grow' (grow d) := by
  intro s hk
  obtain ⟨x, hx, first⟩ := hP s hk
  obtain ⟨y, hy, second⟩ := hQ (P s) (hP.kind_eq hk)
  refine ⟨y, hy, second.trans ?_⟩
  rw [first, ← headed_headed]
  rfl

theorem Puts.taken (h : Puts kind P p grow) : Taken kind (fun s => (P s, [])) grow :=
  ⟨⟨p, h⟩, fun _ _ => rfl⟩

theorem Taken.comp (hF : Taken kind F grow') (hP : Puts kind P p grow) :
    Taken kind (fun s => F (P s)) fun d => grow' (grow d) := by
  obtain ⟨⟨q, puts⟩, silent⟩ := hF
  exact ⟨⟨_, puts.comp hP⟩, fun s hk => silent (P s) (hP.kind_eq hk)⟩

namespace Alike

theorem headed (p : Heading) : Alike kind (fun s => (s.headed p, [])) fun d => d :=
  .inl (puts_headed p).taken

/-- A change of the settings and the dependencies alone. -/
theorem taking (h : ∀ s, s.kind = kind →
    ∃ x, x.spec.kind = kind ∧ F s = (s.taking x (grow s.dependencies), [])) : Alike kind F grow := by
  refine .inl ⟨⟨{}, fun s hk => ?_⟩, fun s hk => ?_⟩
  · obtain ⟨x, hx, taken⟩ := h s hk
    exact ⟨x, hx, congrArg Prod.fst taken⟩
  · obtain ⟨x, -, taken⟩ := h s hk
    rw [taken]

theorem comp (hF : Alike kind F grow') (hP : Puts kind P p grow) :
    Alike kind (fun s => F (P s)) fun d => grow' (grow d) :=
  hF.imp (·.comp hP) fun refused s hk => refused (P s) (hP.kind_eq hk)

theorem congr (hF : Alike kind F grow) (same : ∀ s, s.kind = kind → G s = F s) :
    Alike kind G grow := by
  rcases hF with ⟨⟨p, puts⟩, silent⟩ | refused
  · refine .inl ⟨⟨p, fun s hk => ?_⟩, fun s hk => ?_⟩
    · simpa only [same s hk] using puts s hk
    · rw [same s hk, silent s hk]
  · refine .inr fun s hk => ?_
    rw [same s hk, refused s hk]

variable {α : Type} {f : Step → α → Step × Diagnostics} {extend : DependencySet → α → DependencySet}

/-- A list is taken when each of its elements is. -/
theorem gather (h : ∀ a, Alike kind (f · a) (extend · a)) (as : List α) :
    Alike kind (Diagnostics.gather f · as) (as.foldl extend) := by
  induction as with
  | nil => exact headed {}
  | cons a as ih =>
    rcases h a with ⟨⟨p, puts⟩, silent⟩ | refused
    · refine (ih.comp puts).imp (fun taken => ⟨taken.1, fun s hk => ?_⟩) fun failed s hk => ?_
      · have reports := taken.2 s hk
        simp only [Diagnostics.gather, silent s hk, reports, List.nil_append]
      · have errors := failed s hk
        simp only [Diagnostics.gather, Diagnostics.hasErrors_append, errors, Bool.or_true]
    · refine .inr fun s hk => ?_
      simp only [Diagnostics.gather, Diagnostics.hasErrors_append, refused s hk, Bool.true_or]

end Alike
end

/-- An entry of a `depends_on` attribute adds the edge that it names. -/
theorem alike_addEntry (location : Location) (entry : Value) :
    Alike kind (addEntry location · entry)
      fun d => (entry.text? >>= edgeOfText?).toList.foldl .add d := by
  unfold addEntry
  cases entry.text? >>= edgeOfText? with
  | some edge => exact .taking fun s hk => ⟨s.intake, hk, rfl⟩
  | none => exact .inr fun _ _ => rfl

theorem alike_storeCommon (name : String) (v : Value) (location : Location) :
    Alike kind (·.storeCommon name v location)
      fun d => (if name = "depends_on" then
        (entriesOf v).filterMap fun entry => entry.text? >>= edgeOfText? else []).foldl .add d := by
  unfold storeCommon
  split
  · cases Duration.ofValue v with
    | ok _ => exact .headed { timeout := some v }
    | error _ => exact .inr fun _ _ => rfl
  · cases isCollection v with
    | true => exact .headed {}
    | false => exact .inr fun _ _ => rfl
  · have entries : Alike kind (Diagnostics.gather (addEntry location) · (entriesOf v)) _ :=
      .gather (alike_addEntry location) (entriesOf v)
    simpa only [if_true, List.filterMap_eq_flatMap_toList, List.foldl_flatMap] using entries
  · rename_i hn
    rw [if_neg hn]
    unfold Field.set
    cases hf : commonFields.find? (·.name == name) with
    | none => exact .headed {}
    | some f =>
      dsimp only
      cases f.type.convert name v with
      | error m => exact .inr fun _ _ => rfl
      | ok data =>
        have hm := List.mem_of_find?_eq_some hf
        simp only [commonFields, List.mem_cons, List.not_mem_nil, or_false] at hm
        rcases hm with rfl | rfl | rfl
        · exact .headed { title := some data }
        · exact .headed { description := some data }
        · exact .headed { condition := some data }

theorem puts_prepared (a : Attribute) :
    ∃ p, Puts kind (prepared ctx a) p (·.merge (a.resolve ctx).dependencies) := by
  by_cases named : (a.name == "for_each") = true
  · refine ⟨{ forEach := some a.expression }, fun s hk => ⟨s.intake, hk, ?_⟩⟩
    simp only [prepared, named, if_true]
    rfl
  · refine ⟨{}, fun s hk => ⟨s.intake, hk, ?_⟩⟩
    simp only [prepared, named]
    rfl

theorem alike_setCommon (a : Attribute) : Alike kind (·.setCommon a ctx) (a.await ctx) := by
  obtain ⟨p, puts⟩ : ∃ p, Puts kind (prepared ctx a) p _ := puts_prepared a
  unfold Attribute.await Attribute.namedEdges
  cases ho : (a.resolve ctx).outcome with
  | resolved v =>
    refine ((alike_storeCommon a.name v a.location).comp puts).congr fun s _ => ?_
    simp only [setCommon, ho]
    rfl
  | deferred =>
    -- A list of dependencies and a collection leave no expression behind.
    simp only [ite_self, List.foldl_nil]
    cases hw : waits ctx a with
    | true =>
      have deferred : Alike kind (fun s => (s.defer a.name a.expression, [])) fun d => d :=
        .taking fun s hk => ⟨⟨s.spec, s.deferred.insert a.name a.expression⟩, hk, rfl⟩
      exact (deferred.comp puts).congr fun s _ => setCommon_of_waits hw s
    | false =>
      refine Alike.congr (.inl puts.taken) fun s _ => ?_
      simp only [waits, Resolution.isDeferred, ho, Bool.true_and, Bool.not_eq_false'] at hw
      simp only [setCommon, ho, if_pos hw]
      rfl
  | failed ds =>
    refine .inr fun s _ => ?_
    simp only [setCommon, ho]
    exact Expression.hasErrors_of_failed ho

theorem alike_setOfKind (name : String) (a : Attribute) :
    Alike kind (·.setOfKind name a ctx) (·.merge (a.resolve ctx).dependencies) := by
  cases ho : (a.resolve ctx).outcome with
  | resolved v =>
    by_cases fits : kind.Fits name v
    · refine .taking fun s hk => ⟨⟨s.spec.store name v, s.deferred⟩, hk, ?_⟩
      subst hk
      have stored : s.spec.set name v = .ok (s.spec.store name v) :=
        StepSpec.set_eq_ok.2 ⟨fits, rfl⟩
      simp only [setOfKind, ho, depending, stored]
      rfl
    · refine .inr fun s hk => ?_
      subst hk
      simp only [setOfKind, ho, depending]
      split
      · rename_i stored
        exact absurd (StepSpec.set_eq_ok.1 stored).1 fits
      · rfl
  | deferred =>
    refine .taking fun s hk => ⟨⟨s.spec, s.deferred.insert name a.expression⟩, hk, ?_⟩
    simp only [setOfKind, ho]
    rfl
  | failed ds =>
    refine .inr fun s _ => ?_
    simp only [setOfKind, ho]
    exact Expression.hasErrors_of_failed ho

/-- Either every step of a kind takes an attribute, or none does. -/
theorem alike_setAttribute (a : Attribute) :
    Alike kind (setAttribute ctx · a) (a.await ctx) := by
  by_cases common : commonNames.contains a.name = true
  · exact (alike_setCommon a).congr fun s _ => if_pos common
  · have grown : a.await ctx = (·.merge (a.resolve ctx).dependencies) := by
      have other : a.name ≠ "depends_on" := fun named => common (named ▸ by decide)
      funext d
      simp [Attribute.await, Attribute.namedEdges, other]
    rw [grown]
    by_cases owned : kind.accepts a.name = true
    · refine (alike_setOfKind a.name a).congr fun s hk => ?_
      rw [setAttribute, if_neg common, hk, if_pos owned]
    · refine .inr fun s hk => ?_
      dsimp only [setAttribute]
      rw [if_neg common, hk, if_neg owned]
      rfl

variable {b : Block} {pipeline : String}

theorem taken_setAttributes (accepted : (s.setAttributes b ctx).2.hasErrors = false) :
    Taken s.kind (·.setAttributes b ctx) (b.attributes.foldl (Attribute.await ctx)) := by
  have alike : Alike s.kind (·.setAttributes b ctx) _ := .gather alike_setAttribute b.attributes
  refine alike.resolve_right fun refused => ?_
  rw [refused s rfl] at accepted
  cases accepted

theorem dependencies_setAttributes (accepted : (s.setAttributes b ctx).2.hasErrors = false) :
    (s.setAttributes b ctx).1.dependencies =
      b.attributes.foldl (Attribute.await ctx) s.dependencies := by
  obtain ⟨⟨p, puts⟩, -⟩ := taken_setAttributes accepted
  obtain ⟨x, -, taken⟩ := puts s rfl
  exact congrArg dependencies taken

theorem heading_setBlock (b : Block) (s : Step) : (s.setBlock b ctx).1.heading = s.heading := by
  unfold setBlock
  split
  · unfold setLoop
    split <;> rfl
  · unfold setPolicy
    dsimp only
    split <;> rfl
  · unfold setPolicy
    dsimp only
    split <;> rfl
  · unfold addThrow
    split <;> rfl
  · unfold addOutput
    split
    · split <;> rfl
    · rfl
  · split
    · refine Diagnostics.gather_keeps (I := fun s' : Step => s'.heading = s.heading) ?_ _ rfl
      intro s' a same
      rw [setInner_eq]
      split
      · obtain ⟨x, d, -, set⟩ : ∃ x d, x.spec.kind = s'.kind ∧
            (s'.setOfKind (b.innerName a.name) a ctx).1 = s'.taking x d :=
          s'.setOfKind_eq_taking _ a
        rw [set]
        exact same
      · exact same
    · rfl

theorem heading_setBlocks (b : Block) (s : Step) : (s.setBlocks b ctx).1.heading = s.heading := by
  refine Diagnostics.gather_keeps (I := fun state : Step × List String =>
    state.1.heading = s.heading) ?_ b.blocks (s := (s, [])) rfl
  intro state inner same
  unfold setBlockOnce
  dsimp only
  split
  · exact same
  · exact (heading_setBlock inner state.1).trans same

/-- Resolving the attributes of an accepted step again reports nothing, and changes its settings and
dependencies at most. -/
theorem exists_setAttributes_eq (accepted : ofBlock b pipeline ctx = .ok s) :
    ∃ x, s.setAttributes b ctx =
      (s.taking x (b.attributes.foldl (Attribute.await ctx) s.dependencies), []) := by
  obtain ⟨word, name, kind, -, -, taken, -, rfl⟩ := exists_of_ofBlock accepted
  have same : (((start b kind name pipeline).takeIn b ctx).1.released).kind = kind :=
    Move.kind_runAll (run_takeIn taken)
  simp only [takeIn_eq, Diagnostics.hasErrors_append, Bool.or_eq_false_iff] at taken
  obtain ⟨⟨p, puts⟩, silent⟩ := taken_setAttributes taken.1
  obtain ⟨y, -, first⟩ := puts (start b kind name pipeline) rfl
  -- A step starts without a heading, and inner blocks do not touch it.
  have heading : (((start b kind name pipeline).takeIn b ctx).1.released).heading = p := by
    refine (heading_setBlocks b ((start b kind name pipeline).setAttributes b ctx).1).trans ?_
    dsimp only at first
    rw [first]
    simp [heading, headed, Heading.over, taking, start, ofKind]
  obtain ⟨x, -, second⟩ := puts _ same
  refine ⟨x, Prod.ext (second.trans ?_) (silent _ same)⟩
  rw [← heading, headed_heading]

theorem not_mem_dependencies_self (accepted : ofBlock b pipeline ctx = .ok s) :
    (⟨.step, s.fullName⟩ : Edge) ∉ s.dependencies := by
  obtain ⟨word, name, kind, -, -, -, -, rfl⟩ := exists_of_ofBlock accepted
  exact fun own => (DependencySet.mem_removeStep.1 own).2 rfl

theorem mem_dependencies_of_awaits (accepted : ofBlock b pipeline ctx = .ok s) {a : Attribute}
    (ha : a ∈ b.attributes) {edge : Edge} (awaits : a.Awaits ctx edge)
    (other : edge ≠ ⟨.step, s.fullName⟩) : edge ∈ s.dependencies := by
  obtain ⟨word, name, kind, -, -, taken, -, rfl⟩ := exists_of_ofBlock accepted
  simp only [takeIn_eq, Diagnostics.hasErrors_append, Bool.or_eq_false_iff] at taken
  have found : edge ∈ ((start b kind name pipeline).setAttributes b ctx).1.dependencies := by
    rw [dependencies_setAttributes taken.1]
    exact Attribute.mem_foldl_await.2 (.inr ⟨a, ha, awaits⟩)
  exact DependencySet.mem_removeStep.2 ⟨(grows_mem edge).setBlocks b found, other⟩

theorem credentials_again (accepted : ofBlock b pipeline ctx = .ok s) :
    (b.attributes.foldl (Attribute.await ctx) s.dependencies).credentials =
      s.dependencies.credentials := by
  have found : ∀ a ∈ b.attributes, ∀ target, a.Awaits ctx ⟨.credential, target⟩ →
      (⟨.credential, target⟩ : Edge) ∈ s.dependencies :=
    fun a ha target awaits => mem_dependencies_of_awaits accepted ha awaits (by simp)
  exact Attribute.targets_foldl_await found

/-- An accepted step waits for all that its attributes ask for, but not for itself. -/
theorem dependencies_again (accepted : ofBlock b pipeline ctx = .ok s) :
    b.attributes.foldl (Attribute.await ctx) s.dependencies = s.dependencies ↔
      ∀ a ∈ b.attributes, ¬a.Awaits ctx ⟨.step, s.fullName⟩ := by
  constructor
  · intro kept a ha awaits
    have own : (⟨.step, s.fullName⟩ : Edge) ∈ s.dependencies :=
      kept ▸ Attribute.mem_foldl_await.2 (.inr ⟨a, ha, awaits⟩)
    exact not_mem_dependencies_self accepted own
  · intro others
    have steps : (b.attributes.foldl (Attribute.await ctx) s.dependencies).targets .step =
        s.dependencies.targets .step := by
      refine Attribute.targets_foldl_await fun a ha target awaits => ?_
      refine mem_dependencies_of_awaits accepted ha awaits fun own => others a ha ?_
      rwa [own] at awaits
    exact congrArg₂ DependencySet.mk steps (credentials_again accepted)

theorem intake_again (accepted : ofBlock b pipeline ctx = .ok s)
    (undisturbed : b.Undisturbed s.kind ctx) : (s.setAttributes b ctx).1.intake = s.intake := by
  obtain ⟨x, again⟩ := exists_setAttributes_eq accepted
  have silent : (s.setAttributes b ctx).2.hasErrors = false := by
    rw [again]
    rfl
  exact undisturbed.runAll_again (x := ⟨.ofKind s.kind, []⟩) rfl List.Pairwise.nil
    (run_moves accepted) (run_setAttributes silent)

/-- Resolving the attributes of an accepted step again reports nothing and changes at most its
settings and the steps that it waits for. Where no inner block sets to something else what the body
sets, it changes nothing, unless the step refers to itself. -/
theorem setAttributes_again (accepted : ofBlock b pipeline ctx = .ok s) :
    (∃ x steps, s.setAttributes b ctx = (s.taking x ⟨steps, s.dependencies.credentials⟩, [])) ∧
      (b.Undisturbed s.kind ctx → (s.setAttributes b ctx = (s, []) ↔
        ∀ a ∈ b.attributes, ¬a.Awaits ctx ⟨.step, s.fullName⟩)) := by
  obtain ⟨x, again⟩ := exists_setAttributes_eq accepted
  refine ⟨⟨x, (b.attributes.foldl (Attribute.await ctx) s.dependencies).steps, ?_⟩, ?_⟩
  · rw [again, ← credentials_again accepted]
  · intro undisturbed
    have settings := intake_again accepted undisturbed
    rw [again] at settings ⊢
    obtain rfl : x = s.intake := settings
    rw [← dependencies_again accepted]
    constructor
    · exact congrArg fun r : Step × Diagnostics => r.1.dependencies
    · intro kept
      rw [kept]
      rfl

/-- A request whose address comes from another step and whose password is a credential. -/
def securedBlock : Block where
  type := "step"
  labels := ["http", "get"]
  attributes := [
    ⟨"url", .term (.access (.variable "step") [.member "transform", .member "shape",
      .member "url"]), default⟩,
    ⟨"method", .literal (.string "post"), default⟩]
  blocks := [⟨"basic_auth", [], [
    ⟨"username", .literal (.string "me"), default⟩,
    ⟨"password", .term (.access (.variable "credential") [.member "aws", .member "main"]),
      default⟩], [], default, []⟩]
  location := default
  diagnostics := []

theorem undisturbed_securedBlock : securedBlock.Undisturbed .http ⟨.empty, {}, .plain, .brief⟩ := by
  have body : securedBlock.bodyWrites .http ⟨.empty, {}, .plain, .brief⟩ =
    [.keep "url" _, .store "method" _] := rfl
  have inner : securedBlock.innerWrites .http ⟨.empty, {}, .plain, .brief⟩ =
    [.declare "basic_auth" [], .store "basic_auth.username" _, .keep "basic_auth.password" _] := rfl
  have apart : StepKind.http.place "method" ≠ StepKind.http.place "basic_auth.username" := by decide
  simp [Block.Undisturbed, body, inner, Write.Agrees, apart]

theorem setAttributes_again_secured :
    ∃ s, ofBlock securedBlock "p" ⟨.empty, {}, .plain, .brief⟩ = .ok s ∧
      s.dependencies = ⟨["transform.shape"], ["aws.main"]⟩ ∧ s.attributesResolved = false ∧
      s.setAttributes securedBlock ⟨.empty, {}, .plain, .brief⟩ = (s, []) := by
  obtain ⟨s, accepted, found, waits, kind, name⟩ :
      ∃ s, ofBlock securedBlock "p" ⟨.empty, {}, .plain, .brief⟩ = .ok s ∧
        s.dependencies = ⟨["transform.shape"], ["aws.main"]⟩ ∧ s.attributesResolved = false ∧
        s.kind = .http ∧ s.fullName = "http.get" := by decide
  refine ⟨s, accepted, found, waits, ((setAttributes_again accepted).2 ?_).2 ?_⟩
  · rw [kind]
    exact undisturbed_securedBlock
  · rw [name]
    decide

/-- A request for the page after the one that it has got. -/
def pagingBlock : Block where
  type := "step"
  labels := ["http", "page"]
  attributes := [
    ⟨"url", .term (.access (.variable "step") [.member "http", .member "page", .member "next"]),
      default⟩]
  blocks := []
  location := default
  diagnostics := []

/-- A message that is sent to another channel than the body says. -/
def reroutedBlock : Block where
  type := "step"
  labels := ["message", "hello"]
  attributes := [
    ⟨"text", .literal (.string "hi"), default⟩,
    ⟨"channel", .literal (.string "ops"), default⟩]
  blocks := [⟨"notify", [], [⟨"channel", .literal (.string "alerts"), default⟩], [], default, []⟩]
  location := default
  diagnostics := []

/-- Resolved again, the first step waits for itself; the second refers to no step, and is sent to
the channel of the body. -/
theorem setAttributes_changes :
    (¬∀ (b : Block) (pipeline : String) (ctx : ResolutionContext) (s : Step),
      (b.attributes.map (·.name)).Nodup → ofBlock b pipeline ctx = .ok s →
        s.setAttributes b ctx = (s, [])) ∧
      ¬∀ (b : Block) (pipeline : String) (ctx : ResolutionContext) (s : Step),
        (b.attributes.map (·.name)).Nodup → ofBlock b pipeline ctx = .ok s →
        (∀ a ∈ b.attributes, ∀ edge, ¬a.Awaits ctx edge) → s.setAttributes b ctx = (s, []) := by
  constructor
  · intro claim
    have same := claim pagingBlock "p" ⟨.empty, {}, .plain, .brief⟩ _ (by decide) rfl
    have steps := congrArg (fun r : Step × Diagnostics => r.1.dependencies.steps) same
    exact absurd steps (by decide)
  · intro claim
    have silent :
        ∀ a ∈ reroutedBlock.attributes, ∀ edge, ¬a.Awaits ⟨.empty, {}, .plain, .brief⟩ edge := by
      refine List.forall_mem_cons.2 ⟨fun edge => ?_, List.forall_mem_singleton.2 fun edge => ?_⟩ <;>
        exact fun awaits => awaits.elim DependencySet.mem_empty List.not_mem_nil
    have same := claim reroutedBlock "p" ⟨.empty, {}, .plain, .brief⟩ _ (by decide) rfl silent
    have channel := congrArg (fun r : Step × Diagnostics =>
      (Dict.get? r.1.spec.inputs "channel").bind Value.text?) same
    exact absurd channel (by decide)

end Step
end PipelineResolution
