import PipelineResolution.Proofs.Expression.Bound

/-!
# Where an evaluation stops

An expression without a value reports where its evaluation stops: at each unknown root, or else at
the first error of each of its terms and texts.
-/
namespace PipelineResolution

/-- An error that stops the evaluation of a text or term, and what is said beyond it. -/
structure Stop where
  error : EvalError
  more : String

def Stop.report (s : Stop) : Diagnostic := s.error.toDiagnostic s.more

/-- What a computation stops at. -/
def stop? {α : Type} (more : EvalError → String) : Except EvalError α → List Stop
  | .ok _ => []
  | .error err => [⟨err, more err⟩]

theorem StopsAt.of_mem_stop? {α : Type} {P : String → Prop} {more : EvalError → String}
    {x : Except EvalError α} (h : StopsAt P x) {stop : Stop} (stopped : stop ∈ stop? more x)
    {name : String} (unknown : stop.error = .unknownVariable name) : P name := by
  cases x with
  | ok a => cases stopped
  | error err =>
    obtain rfl := List.mem_singleton.1 stopped
    exact h name (congrArg _ unknown)

/-- What a computation reports. -/
def reportsOf {α : Type} : Except Diagnostics α → Diagnostics
  | .ok _ => []
  | .error ds => ds

namespace Expression
variable {env : Environment} {w : Wording}

mutual
/-- The first error of each term and text. -/
def errors (env : Environment) (w : Wording) : Expression → List Stop
  | .literal _ => []
  | .template parts =>
    stop? (w.more (.template parts) env) (Part.evalList ⟨[], env⟩ ⟨false, false⟩ parts)
  | .term t => stop? (w.more (.term t) env) (t.eval ⟨[], env⟩)
  | .tuple items => listErrors env w items
  | .object entries => entryErrors env w entries

def listErrors (env : Environment) (w : Wording) : List Expression → List Stop
  | [] => []
  | e :: es => e.errors env w ++ listErrors env w es

def entryErrors (env : Environment) (w : Wording) : List (String × Expression) → List Stop
  | [] => []
  | (_, e) :: es => e.errors env w ++ entryErrors env w es
end

mutual
theorem reportsOf_eval : (e : Expression) →
    reportsOf (e.eval env w) = (e.errors env w).map Stop.report
  | .literal _ => rfl
  | .template parts => by
    rw [eval, errors]
    cases Part.evalList ⟨[], env⟩ ⟨false, false⟩ parts <;> rfl
  | .term t => by
    rw [eval, errors]
    cases t.eval ⟨[], env⟩ <;> rfl
  | .tuple items => by
    rw [eval, errors, ← reports_evalList items]
    rcases evalList items env w with ⟨values, _ | ⟨d, ds⟩⟩ <;> rfl
  | .object entries => by
    rw [eval, errors, ← reports_evalEntries entries]
    rcases evalEntries entries env w with ⟨values, _ | ⟨d, ds⟩⟩ <;> rfl

theorem reports_evalList : (es : List Expression) →
    (evalList es env w).2 = (listErrors env w es).map Stop.report
  | [] => rfl
  | e :: es => by
    rw [evalList, listErrors, List.map_append, ← reportsOf_eval e, ← reports_evalList es]
    cases e.eval env w <;> rfl

theorem reports_evalEntries : (es : List (String × Expression)) →
    (evalEntries es env w).2 = (entryErrors env w es).map Stop.report
  | [] => rfl
  | (k, e) :: es => by
    rw [evalEntries, entryErrors, List.map_append, ← reportsOf_eval e, ← reports_evalEntries es]
    cases e.eval env w <;> rfl
end

theorem eq_of_eval {e : Expression} {ds : Diagnostics} (h : e.eval env w = .error ds) :
    ds = (e.errors env w).map Stop.report := by
  rw [← reportsOf_eval, h, reportsOf]

theorem ne_nil_of_eval {e : Expression} {ds : Diagnostics} (h : e.eval env w = .error ds) :
    ds ≠ [] := by
  rintro rfl
  cases e with
  | literal v => cases h
  | template parts =>
    rw [eval] at h
    split at h <;> cases h
  | term t =>
    rw [eval] at h
    split at h <;> cases h
  | tuple items =>
    rw [eval] at h
    split at h
    · cases h
    · rename_i filled _
      cases h
      exact filled rfl
  | object entries =>
    rw [eval] at h
    split at h
    · cases h
    · rename_i filled _
      cases h
      exact filled rfl

section
variable {P : String → Prop} {stop : Stop} {name : String}

mutual
/-- The unknown variables at which the terms stop are unbound roots of reads. -/
theorem unknown_of_errors : (e : Expression) → Scope.Covers ⟨[], env⟩ P e.reads →
    stop ∈ e.errors env w → stop.error = .unknownVariable name → P name
  | .literal _, _, h, _ => nomatch h
  | .template parts, covers, h, unknown =>
    (Part.stopsAt_evalList parts _ covers).of_mem_stop? h unknown
  | .term t, covers, h, unknown => (t.stopsAt_eval covers).of_mem_stop? h unknown
  | .tuple items, covers, h, unknown => unknown_of_listErrors items covers h unknown
  | .object entries, covers, h, unknown => unknown_of_entryErrors entries covers h unknown

theorem unknown_of_listErrors : (es : List Expression) → Scope.Covers ⟨[], env⟩ P (listReads es) →
    stop ∈ listErrors env w es → stop.error = .unknownVariable name → P name
  | [], _, h, _ => nomatch h
  | e :: es, covers, h, unknown => by
    obtain ⟨first, rest⟩ := Scope.covers_append.1 covers
    rcases List.mem_append.1 h with h | h
    · exact unknown_of_errors e first h unknown
    · exact unknown_of_listErrors es rest h unknown

theorem unknown_of_entryErrors : (es : List (String × Expression)) →
    Scope.Covers ⟨[], env⟩ P (entryReads es) →
    stop ∈ entryErrors env w es → stop.error = .unknownVariable name → P name
  | [], _, h, _ => nomatch h
  | (_, e) :: es, covers, h, unknown => by
    obtain ⟨first, rest⟩ := Scope.covers_append.1 covers
    rcases List.mem_append.1 h with h | h
    · exact unknown_of_errors e first h unknown
    · exact unknown_of_entryErrors es rest h unknown
end

end

/-- The unknown roots, or else the first error of each term and text. -/
def stops (e : Expression) (env : Environment) (w : Wording) : List Stop :=
  match e.unknownRoots env with
  | [] => e.errors env w
  | unknown => unknown.map fun name => ⟨.unknownVariable name, ""⟩

theorem reportsOf_evaluateWith (e : Expression) :
    reportsOf (e.evaluateWith env w) = (e.stops env w).map Stop.report := by
  unfold evaluateWith stops
  split
  · rfl
  · cases e.unknownRoots env with
    | nil => exact reportsOf_eval e
    | cons name names => simp [reportsOf, Stop.report, EvalError.toDiagnostic]

theorem reportsOf_evaluate (e : Expression) :
    reportsOf (e.evaluate env) = (e.stops env .brief).map Stop.report :=
  reportsOf_evaluateWith e

/-- A failed evaluation reports just where it stops. -/
theorem eq_of_evaluate {e : Expression} {ds : Diagnostics} (h : e.evaluateWith env w = .error ds) :
    ds = (e.stops env w).map Stop.report := by
  rw [← reportsOf_evaluateWith, h, reportsOf]

end Expression
end PipelineResolution
