import PipelineResolution.Proofs.Resolution.Body
import PipelineResolution.Trigger.Settled

/-!
# What is settled stays settled

An attribute that is taken in without an error is known from then on, or deferred if it may be. What
is declared once is not lost when other attributes follow.
-/
namespace PipelineResolution

theorem evaluateArguments_known {known : Option (Dict Value)} {deferred : Dict Expression}
    (h : deferred.contains "args" = false) (location : Location) (env : Environment) :
    evaluateArguments known deferred location env = .ok (known.getD []) := by
  have none : deferred.get? "args" = .none := by simpa [Dict.contains] using h
  unfold evaluateArguments
  rw [none]
  rfl

namespace Settled
variable {s : Settled} {ctx : ResolutionContext} {static : String → Bool}
  {f : Settled → Attribute → Settled × Diagnostics}

/-- Whatever is known or deferred stays so. -/
structure Grows (s s' : Settled) : Prop where
  values : ∀ name, s.values.contains name = true → s'.values.contains name = true
  deferred : ∀ name, s.deferred.contains name = true → s'.deferred.contains name = true

/-- An attribute is known or deferred, and known if it is static. -/
def Knows (static : String → Bool) (s : Settled) (name : String) : Prop :=
  s.values.contains name = true ∨ static name = false ∧ s.deferred.contains name = true

theorem Knows.mono {s' : Settled} {name : String} (h : s.Knows static name) (grows : s.Grows s') :
    s'.Knows static name :=
  h.imp (grows.values name) (.imp_right (grows.deferred name))

/-- Without an error, an attribute is stored as known or, unless it is static, as deferred. -/
def Takes (static : String → Bool) (f : Settled → Attribute → Settled × Diagnostics) : Prop :=
  ∀ s a, (f s a).2.hasErrors = false →
    (∃ v, (f s a).1.values = s.values.insert a.name v ∧ (f s a).1.deferred = s.deferred) ∨
    static a.name = false ∧ (f s a).1.values = s.values ∧
      (f s a).1.deferred = s.deferred.insert a.name a.expression

theorem Takes.step (h : Takes static f) {a : Attribute} (accepted : (f s a).2.hasErrors = false) :
    s.Grows (f s a).1 ∧ (f s a).1.Knows static a.name := by
  rcases h s a accepted with ⟨v, values, deferred⟩ | ⟨dynamic, values, deferred⟩
  · refine ⟨⟨fun name hn => ?_, fun name hn => by rwa [deferred]⟩, .inl ?_⟩
    · rw [values, Dict.contains_insert, hn, Bool.or_true]
    · rw [values, Dict.contains_insert, decide_eq_true rfl, Bool.true_or]
  · refine ⟨⟨fun name hn => by rwa [values], fun name hn => ?_⟩, .inr ⟨dynamic, ?_⟩⟩
    · rw [deferred, Dict.contains_insert, hn, Bool.or_true]
    · rw [deferred, Dict.contains_insert, decide_eq_true rfl, Bool.true_or]

/-- Every attribute of a list that is taken in is known at its end. -/
theorem Takes.gather (h : Takes static f) {as : List Attribute}
    (accepted : (Diagnostics.gather f s as).2.hasErrors = false) :
    s.Grows (Diagnostics.gather f s as).1 ∧
      ∀ a ∈ as, (Diagnostics.gather f s as).1.Knows static a.name := by
  induction as generalizing s with
  | nil => exact ⟨⟨fun _ hn => hn, fun _ hn => hn⟩, fun _ ha => nomatch ha⟩
  | cons a as ih =>
    simp only [Diagnostics.gather, Diagnostics.hasErrors_append, Bool.or_eq_false_iff] at accepted
    obtain ⟨grows, knows⟩ := h.step accepted.1
    obtain ⟨grows', known⟩ := ih accepted.2
    refine ⟨⟨fun name hn => grows'.values name (grows.values name hn), fun name hn =>
      grows'.deferred name (grows.deferred name hn)⟩, List.forall_mem_cons.2 ⟨?_, known⟩⟩
    exact knows.mono grows'

theorem takes_addStatic : Takes static (addStatic ctx) := by
  intro s a accepted
  unfold addStatic at accepted ⊢
  cases ho : (a.resolve ctx).outcome with
  | resolved v => exact .inl ⟨v, rfl, rfl⟩
  | deferred =>
    simp only [ho] at accepted
    cases accepted
  | failed ds =>
    simp only [ho] at accepted
    rw [Expression.hasErrors_of_failed ho] at accepted
    cases accepted

/-- An attribute is stored as it is refined, or deferred. -/
theorem add_cases {refine : Attribute → Value → Except Diagnostic Value} {a : Attribute}
    (reports : ∀ v d, refine a v = .error d → d.isError = true)
    (accepted : (s.add ctx refine a).2.hasErrors = false) :
    (∃ v v', refine a v = .ok v' ∧ (s.add ctx refine a).1.values = s.values.insert a.name v' ∧
      (s.add ctx refine a).1.deferred = s.deferred) ∨
    (s.add ctx refine a).1.values = s.values ∧
      (s.add ctx refine a).1.deferred = s.deferred.insert a.name a.expression := by
  unfold add at accepted ⊢
  dsimp only at accepted ⊢
  cases ho : (a.resolve ctx).outcome with
  | resolved v =>
    simp only [ho] at accepted ⊢
    cases hr : refine a v with
    | ok v' => exact .inl ⟨v, v', hr, rfl, rfl⟩
    | error d =>
      simp only [hr, Diagnostics.hasErrors, List.any_cons, reports v d hr] at accepted
      cases accepted
  | deferred => exact .inr ⟨rfl, rfl⟩
  | failed ds =>
    simp only [ho] at accepted
    rw [Expression.hasErrors_of_failed ho] at accepted
    cases accepted

theorem takes_add {refine : Attribute → Value → Except Diagnostic Value}
    (reports : ∀ a v d, refine a v = .error d → d.isError = true)
    (dynamic : ∀ name, static name = false) : Takes static (add ctx refine) := by
  intro s a accepted
  rcases add_cases (reports a) accepted with ⟨v, v', -, values, deferred⟩ | ⟨values, deferred⟩
  · exact .inl ⟨v', values, deferred⟩
  · exact .inr ⟨dynamic a.name, values, deferred⟩

end Settled
end PipelineResolution
