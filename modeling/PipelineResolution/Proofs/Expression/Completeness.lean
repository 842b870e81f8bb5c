import PipelineResolution.Proofs.Execution.Environment
import PipelineResolution.Proofs.Expression.Agreement
import PipelineResolution.Proofs.Expression.DirectiveFree
import PipelineResolution.Proofs.Expression.Names
import PipelineResolution.Proofs.Expression.Stops
import PipelineResolution.Proofs.Failing
import PipelineResolution.Proofs.Resolution.Dependencies

/-!
# References are complete for evaluation

An environment that binds all roots of an expression is all that its evaluation needs: it stops at
no unknown variable and depends on nothing else. Two things lie outside: names that occur only in
directives, which are no references, and later names that are spelled as a root. Without directives
every name that is read is a root.
-/
namespace PipelineResolution

/-- Reports among which none is on an unknown variable. -/
def Diagnostics.Known (ds : Diagnostics) : Prop := ∀ d ∈ ds, ∀ name, d.kind ≠ .unknownVariable name

/-- The scope of an expression that stands in no loop. -/
abbrev Environment.scope (env : Environment) : Scope := ⟨[], env⟩

theorem Environment.get?_scope (env : Environment) (name : String) :
    env.scope.get? name = (env.find? name).map Datum.ofValue := by
  simp [Scope.get?, Datum.lookup]

namespace Expression
variable {env env' : Environment}

mutual
theorem eval_congr : (e : Expression) → env.scope.AgreeOn env'.scope e.reads →
    e.eval env .brief = e.eval env' .brief
  | .literal _, _ => by simp only [eval]
  | .template parts, h => by
    simp only [eval]
    rw [Part.evalList_congr parts _ h]
    rfl
  | .term t, h => by
    simp only [eval]
    rw [t.eval_congr h]
    rfl
  | .tuple items, h => by
    simp only [eval]
    rw [evalList_congr items h]
  | .object entries, h => by
    simp only [eval]
    rw [evalEntries_congr entries h]

theorem evalList_congr : (es : List Expression) → env.scope.AgreeOn env'.scope (listReads es) →
    evalList es env .brief = evalList es env' .brief
  | [], _ => rfl
  | e :: es, h => by
    rw [listReads, Scope.agreeOn_append] at h
    simp only [evalList]
    rw [eval_congr e h.1, evalList_congr es h.2]

theorem evalEntries_congr : (es : List (String × Expression)) →
    env.scope.AgreeOn env'.scope (entryReads es) →
      evalEntries es env .brief = evalEntries es env' .brief
  | [], _ => rfl
  | (k, e) :: es, h => by
    rw [entryReads, Scope.agreeOn_append] at h
    simp only [evalEntries]
    rw [eval_congr e h.1, evalEntries_congr es h.2]
end

theorem known_eval (e : Expression) (bound : ∀ r ∈ e.reads, env.scope.get? r.root ≠ none)
    {ds : Diagnostics} (h : e.eval env .brief = .error ds) : ds.Known := by
  intro d hd name kind
  rw [eq_of_eval h] at hd
  obtain ⟨⟨err, more⟩, stopped, rfl⟩ := List.mem_map.1 hd
  cases err <;> cases kind
  exact unknown_of_errors (P := fun _ => False) e bound stopped rfl

theorem evaluate_of_bound {e : Expression} (bound : ∀ name ∈ e.roots, env.binds name = true) :
    e.evaluate env = e.eval env .brief := by
  have hu : e.unknownRoots env = [] :=
    List.filter_eq_nil_iff.2 fun name hn => by simp [bound name hn]
  unfold evaluate evaluateWith
  split
  · rfl
  · rw [hu]

/-- No directive reads a name that is not also a root. -/
def Covered (e : Expression) : Prop := ∀ r ∈ e.reads, r.root ∈ e.roots

instance (e : Expression) : Decidable e.Covered :=
  inferInstanceAs (Decidable (∀ r ∈ e.reads, r.root ∈ e.roots))

/-- What is hidden from the check for unbound roots is hidden by a directive. -/
theorem covered_of_directiveFree {e : Expression} (h : e.directiveFree = true) : e.Covered :=
  fun _ hr => mem_roots.2 ⟨_, reference_mem_of_directiveFree h hr, rfl⟩

/-- Binding the roots is enough for an evaluation, and fixes what it gives, at least where there is
no directive. -/
theorem evaluate_complete (e : Expression) (written : e.Written)
    (covered : e.directiveFree = true ∨ e.Covered) (env : Environment)
    (sorted : env.bindings.Sorted) (plain : env.Plain e.roots)
    (bound : ∀ name ∈ e.roots, env.binds name = true) :
    (∀ ds, e.evaluate env = .error ds → ds.Known) ∧
      ∀ env' : Environment, env'.bindings.Sorted → env'.Plain e.roots →
        (∀ name ∈ e.roots, env'.get? name = env.get? name) → e.evaluate env' = e.evaluate env := by
  have identifier {name : String} (hn : name ∈ e.roots) : Text.identifierOf name = name := by
    obtain ⟨r, hr, rfl⟩ := mem_roots.1 hn
    exact written.isIdentifier_root hr
  have covered : e.Covered := covered.elim covered_of_directiveFree id
  constructor
  · intro ds he
    rw [evaluate_of_bound bound] at he
    refine known_eval e (fun r hr => ?_) he
    have hroot := covered r hr
    obtain ⟨v, hv⟩ := Environment.binds_iff.1 (bound _ hroot)
    rw [Environment.get?_scope, plain.find?_eq sorted hroot (identifier hroot) hv]
    simp
  · intro env' sorted' plain' same
    have bound' : ∀ name ∈ e.roots, env'.binds name = true := fun name hn => by
      obtain ⟨v, hv⟩ := Environment.binds_iff.1 (bound name hn)
      exact Environment.binds_iff.2 ⟨v, (same name hn).trans hv⟩
    rw [evaluate_of_bound bound, evaluate_of_bound bound']
    refine eval_congr e fun r hr => .of_get?_eq ?_
    have hroot := covered r hr
    obtain ⟨v, hv⟩ := Environment.binds_iff.1 (bound _ hroot)
    rw [Environment.get?_scope, Environment.get?_scope,
      plain.find?_eq sorted hroot (identifier hroot) hv,
      plain'.find?_eq sorted' hroot (identifier hroot) ((same _ hroot).trans hv)]

theorem parseTerm_variable : parseTerm "x" = .ok (term (.variable "x")) := by
  with_unfolding_all rfl

/-- A further name in the environment changes nothing. -/
theorem evaluate_complete_variable :
    (term (.variable "x")).evaluate ⟨[("w", .null), ("x", .bool true)]⟩ =
      (term (.variable "x")).evaluate ⟨[("x", .bool true)]⟩ :=
  (evaluate_complete (term (.variable "x")) (.term parseTerm_variable) (.inl rfl)
    ⟨[("x", .bool true)]⟩ (by decide) (by decide) (by decide)).2 _ (by decide) (by decide)
    fun name hn => by
      rw [List.mem_singleton.1 hn]
      rfl

/-- A name that only a directive holds. -/
def hiddenName : String := "\"%\x7bif x\x7da%\x7bendif\x7d\""

theorem parseTerm_hiddenName : ∃ e, parseTerm hiddenName = .ok e ∧ e.roots = [] ∧
    ∃ ds, e.evaluate .empty = .error ds ∧ ds = [.unknownVariable "x"] := by
  decide +kernel

/-- Without `Covered` an unknown variable is found only by evaluating. -/
theorem evaluate_hiddenName :
    ¬∀ e : Expression, e.Written → ∀ env : Environment, env.bindings.Sorted →
      (∀ name ∈ e.roots, env.binds name = true) →
      (∀ ds, e.evaluate env = .error ds → ds.Known) ∧
        ∀ env' : Environment, env'.bindings.Sorted →
          (∀ name ∈ e.roots, env'.get? name = env.get? name) →
          e.evaluate env' = e.evaluate env := by
  intro h
  obtain ⟨e, he, hroots, ds, hds, rfl⟩ := parseTerm_hiddenName
  have hk := (h e (.term he) .empty .nil (by simp [hroots])).1 _ hds
  exact hk _ List.mem_cons_self "x" rfl

end Expression
end PipelineResolution
