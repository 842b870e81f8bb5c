import PipelineResolution.Proofs.Resolution.Body
import PipelineResolution.Step.Basic

/-!
# Early values agree with late evaluation

What the reader of a document resolves is what a run would find: a fuller environment gives the same
value, policy, throw or output. A name that only the run binds must not be spelled as a name of the
document, since an identifier stands for the last name that is spelled as it.
-/
namespace PipelineResolution
variable {ctx : ResolutionContext} {env : Environment} {b : Block}

theorem Resolution.resolved_of_refine {α β : Type} {r : Resolution α} {f : α → Except Diagnostics β}
    {v : β} (h : (r.refine f).outcome = .resolved v) :
    ∃ a, r.outcome = .resolved a ∧ f a = .ok v := by
  unfold refine at h
  split at h
  · rename_i a ha
    cases hf : f a with
    | ok b =>
      simp only [hf, Outcome.resolved.injEq] at h
      exact ⟨a, ha, h ▸ hf⟩
    | error ds =>
      simp only [hf] at h
      cases h
  · cases h
  · cases h

section
variable (keeps : ∀ e : Expression, Keeps (e.evaluate ctx.environment) (e.evaluate env))
include keeps

theorem RetryPolicy.evaluate_of_resolved {p : RetryPolicy}
    (h : (ofBlock b ctx).outcome = .resolved p) :
    evaluate b env ctx.config.retryDefaults = .ok p := by
  unfold ofBlock at h
  dsimp only at h
  split at h
  · cases h
  · rename_i supported
    obtain ⟨values, hv, hp⟩ := Resolution.resolved_of_refine h
    have body := Block.evaluateBody_of_resolved hv keeps
    unfold evaluate
    dsimp only
    rw [if_neg supported, body]
    exact hp

theorem FailurePolicy.evaluate_of_resolved {p : FailurePolicy}
    (h : (ofBlock b ctx).outcome = .resolved p) : evaluate b env = .ok p := by
  unfold ofBlock at h
  dsimp only at h
  split at h
  · cases h
  · obtain ⟨values, hv, hp⟩ := Resolution.resolved_of_refine h
    unfold evaluate
    rw [Block.evaluateBody_of_resolved hv keeps]
    exact hp

theorem Throw.evaluate_of_decided {fires : Option Bool} {message : Option String}
    {dependencies : DependencySet} (h : ofBlock b ctx = .ok (.decided fires message, dependencies)) :
    (Throw.deferred b).evaluate env = .ok (.decided fires message) := by
  unfold ofBlock at h
  dsimp only at h
  generalize b.unsupportedAttributes _ ++ _ = unsupported at h
  split at h
  · cases h
  · split at h
    · rename_i values hv
      have body := Block.evaluateBody_of_resolved hv keeps
      cases ht : ofValues values b.location with
      | error ds =>
        rw [ht] at h
        cases h
      | ok t =>
        rw [ht] at h
        cases h
        unfold evaluate
        dsimp only
        rw [body]
        exact ht
    · cases h
    · cases h

theorem NamedOutput.evaluate_of_known {o : NamedOutput} {v : Value} (h : ofBlock b ctx = .ok o)
    (known : o.content = .known v) :
    ∃ a, b.attribute? "value" = some a ∧ a.expression.evaluate env = .ok v := by
  unfold ofBlock at h
  split at h
  · cases h
  · dsimp only at h
    split at h
    · cases h
    · rename_i content dependencies hc
      obtain ⟨-, rfl⟩ := Diagnostics.orValue_eq_ok.1 h
      obtain rfl : content = .known v := known
      unfold contentOf at hc
      split at hc
      · cases hc
      · rename_i a ha
        dsimp only at hc
        split at hc
        · rename_i w hw
          cases hc
          exact ⟨a, ha, keeps _ v (Expression.evaluate_of_resolved hw)⟩
        · cases hc
        · cases hc

end

/-- What is known when the document is read is what is found in another environment. -/
structure ResolutionContext.AgreesWith (ctx : ResolutionContext) (env : Environment) : Prop where
  values : ∀ (e : Expression) (location : Location) (v : Value),
    (e.resolve location ctx).outcome = .resolved v → e.evaluate env = .ok v
  retries : ∀ b p, (RetryPolicy.ofBlock b ctx).outcome = .resolved p →
    RetryPolicy.evaluate b env ctx.config.retryDefaults = .ok p
  failures : ∀ b p, (FailurePolicy.ofBlock b ctx).outcome = .resolved p →
    FailurePolicy.evaluate b env = .ok p
  throws : ∀ b fires message dependencies,
    Throw.ofBlock b ctx = .ok (.decided fires message, dependencies) →
      (Throw.deferred b).evaluate env = .ok (.decided fires message)
  outputs : ∀ b o v, NamedOutput.ofBlock b ctx = .ok o → o.content = .known v →
    ∃ a, b.attribute? "value" = some a ∧ a.expression.evaluate env = .ok v

/-- What is known when the document is read is what a run finds, if the run binds all names of the
document and spells no further name like one of them. -/
theorem agreesWith_of_includes (includes : ctx.environment.Includes env)
    (apart : ctx.environment.Apart env) (sorted : ctx.environment.bindings.Sorted)
    (sorted' : env.bindings.Sorted) : ctx.AgreesWith env := by
  have keeps (e : Expression) : Keeps (e.evaluate ctx.environment) (e.evaluate env) :=
    e.evaluate_within includes apart sorted sorted'
  exact
    { values := fun e _ v h => keeps e v (Expression.evaluate_of_resolved h)
      retries := fun _ _ h => RetryPolicy.evaluate_of_resolved keeps h
      failures := fun _ _ h => FailurePolicy.evaluate_of_resolved keeps h
      throws := fun _ _ _ _ h => Throw.evaluate_of_decided keeps h
      outputs := fun _ _ _ h known => NamedOutput.evaluate_of_known keeps h known }

/-- An `error` block that ignores failures when a variable says so. -/
def ignoringBlock (name : String) : Block :=
  ⟨"error", [], [⟨"ignore", .term (.variable name), default⟩], [], default, []⟩

/-- A context that binds one name to `true`. -/
def trueContext (name : String) : ResolutionContext := ⟨⟨[(name, .bool true)]⟩, {}, .plain, .brief⟩

/-- A policy that the document decides is decided alike when the run binds one more name. -/
theorem agreesWith_of_includes_ignoring :
    FailurePolicy.evaluate (ignoringBlock "a")
      ⟨[("a", .bool true), ("b", .bool false)]⟩ = .ok ⟨none, true, 0⟩ := by
  have includes : (trueContext "a").environment.Includes
      ⟨[("a", .bool true), ("b", .bool false)]⟩ :=
    .of_forall_mem (List.forall_mem_singleton.2 rfl)
  exact (agreesWith_of_includes includes (by decide) (by decide) (by decide)).failures _ _ rfl

/-- A name that only the run binds takes over the identifier of a name of the document. -/
theorem not_agreesWith_of_respelled :
    ¬∀ (ctx : ResolutionContext) (env : Environment), ctx.environment.bindings.Sorted →
      env.bindings.Sorted → ctx.environment.Includes env → ctx.AgreesWith env := by
  intro claim
  have includes : (trueContext "a_b").environment.Includes
      ⟨[("a_b", .bool true), ("a~b", .bool false)]⟩ :=
    .of_forall_mem (List.forall_mem_singleton.2 rfl)
  have early := (claim (trueContext "a_b") _ (by decide) (by decide) includes).failures
    (ignoringBlock "a_b") ⟨none, true, 0⟩ rfl
  have late : FailurePolicy.evaluate (ignoringBlock "a_b")
      ⟨[("a_b", .bool true), ("a~b", .bool false)]⟩ = .ok ⟨none, false, 0⟩ := rfl
  rw [late] at early
  cases early

end PipelineResolution
