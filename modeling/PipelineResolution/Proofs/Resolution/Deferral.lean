import PipelineResolution.Proofs.Failing
import PipelineResolution.Proofs.Resolution.Dependencies

/-!
# When an expression waits

An expression with unbound roots is deferred when a run binds all of them and the references that
become dependencies are long enough to name a target. One short reference or one foreign root fails
it, and then every unbound root is reported.
-/
namespace PipelineResolution

/-- The names that a run binds before an expression in a block is evaluated. -/
def BlockContext.Binds (block : BlockContext) (name : String) : Prop :=
  name ∈ ["step", "credential", "each", "param", "loop"] ∨
    name = "retry" ∧ block ∈ [.loop, .retry, .throw, .error] ∨
    name = "result" ∧ block ∈ [.loop, .retry, .throw] ∨
    name = "self" ∧ block = .trigger

def EdgeKind.root : EdgeKind → String
  | .step => "step"
  | .credential => "credential"

/-- The target of a reference, where a credential may go without a name. -/
def Reference.target (r : Reference) : String :=
  (r.segment? 1).getD "" ++ "." ++ (r.segment? 2).getD "<dynamic>"

namespace Expression

def referencesTo (e : Expression) (root : String) : List Reference :=
  e.references.filter (·.root == root)

/-- The targets of all references to a root. -/
def targetsOf (e : Expression) (root : String) : List String :=
  ((e.referencesTo root).map Reference.target).eraseDups

/-- What an expression waits for in an environment. -/
def awaited (e : Expression) (env : Environment) : DependencySet where
  steps := if "step" ∈ e.unknownRoots env then e.targetsOf "step" else []
  credentials := if "credential" ∈ e.unknownRoots env then e.targetsOf "credential" else []

/-- The first reference to a root that is too short. -/
def short? (e : Expression) (root : String) (least : Nat) : Option Reference :=
  (e.referencesTo root).find? (·.segmentCount < least)

/-- The report on the references to a root, if one of them is malformed. -/
def malformed? (e : Expression) (root : String) : Option Diagnostic :=
  if root = "step" then
    (e.short? root 3).map (malformedReference · root "3" "step.<type>.<name>")
  else if root = "credential" then
    (e.short? root 2).map (malformedReference · root "2" "credential.<type>")
  else none

/-- Everything that is reported when the unbound roots of an expression cannot wait. -/
def unboundReports (e : Expression) (env : Environment) : Diagnostics :=
  (e.unknownRoots env).map Diagnostic.unknownVariable ++ (e.unknownRoots env).filterMap e.malformed?

/-- A run binds every unbound root, and every reference to a dependency has a target. -/
structure Deferrable (e : Expression) (ctx : ResolutionContext) : Prop where
  bound : ∀ name ∈ e.unknownRoots ctx.environment, ctx.block.Binds name
  steps : "step" ∈ e.unknownRoots ctx.environment →
    ∀ r ∈ e.referencesTo "step", 3 ≤ r.segmentCount
  credentials : "credential" ∈ e.unknownRoots ctx.environment →
    ∀ r ∈ e.referencesTo "credential", 2 ≤ r.segmentCount

end Expression

theorem stepEdge_eq (r : Reference) :
    stepEdge r = if r.segmentCount < 3
      then .error (malformedReference r "step" "3" "step.<type>.<name>")
      else .ok ⟨.step, r.target⟩ := by
  obtain ⟨root, path⟩ := r
  match path with
  | [] | [_] => rfl
  | kind :: name :: rest =>
    rw [if_neg (by simp [Reference.segmentCount])]
    rfl

theorem credentialEdge_eq (r : Reference) :
    credentialEdge r = if r.segmentCount < 2
      then .error (malformedReference r "credential" "2" "credential.<type>")
      else .ok ⟨.credential, r.target⟩ := by
  obtain ⟨root, path⟩ := r
  match path with
  | [] | [_] => rfl
  | kind :: name :: rest =>
    rw [if_neg (by simp [Reference.segmentCount])]
    rfl

namespace Verdict

def isRecoverable : Verdict → Bool
  | .recoverable _ => true
  | .unrecoverable _ => false

def edges : Verdict → List Edge
  | .recoverable edges => edges
  | .unrecoverable _ => []

def report? : Verdict → Option Diagnostic
  | .recoverable _ => none
  | .unrecoverable extra => extra

end Verdict

theorem BatchVerdict.foldl_add (verdicts : List Verdict) (b : BatchVerdict) :
    verdicts.foldl add b = ⟨b.recoverable && verdicts.all Verdict.isRecoverable,
      b.edges ++ verdicts.flatMap Verdict.edges,
      b.extra ++ verdicts.filterMap Verdict.report?⟩ := by
  induction verdicts generalizing b with
  | nil => simp
  | cons v verdicts ih =>
    rw [List.foldl_cons, ih, List.all_cons, List.flatMap_cons, List.filterMap_cons]
    cases v with
    | recoverable edges => simp [add, Verdict.isRecoverable, Verdict.edges, Verdict.report?]
    | unrecoverable extra =>
      cases extra <;> simp [add, Verdict.isRecoverable, Verdict.edges, Verdict.report?]

/-- The verdict on a batch, read off the verdicts on its diagnostics without their repetitions. -/
theorem classifyAll_distinct (ds : Diagnostics) (e : Expression) (ctx : ResolutionContext) :
    classifyAll ds e ctx =
      ⟨(distinctSymbols ctx [] ds).all fun d => (classify d e ctx).isRecoverable,
        (distinctSymbols ctx [] ds).flatMap fun d => (classify d e ctx).edges,
        (distinctSymbols ctx [] ds).filterMap fun d => (classify d e ctx).report?⟩ := by
  rw [classifyAll, ← List.foldl_map, BatchVerdict.foldl_add]
  simp [List.all_map, List.flatMap_map, List.filterMap_map, Function.comp_def]

/-- Either all edges of a kind are found, or the first short reference is reported. -/
theorem edgesOf_eq {edge : Reference → Except Diagnostic Edge} {kind : EdgeKind} {least : Nat}
    {report : Reference → Diagnostic}
    (h : ∀ r, edge r = if r.segmentCount < least then .error (report r) else .ok ⟨kind, r.target⟩)
    (root : String) (e : Expression) :
    edgesOf edge root e = match e.short? root least with
      | some r => .unrecoverable (some (report r))
      | none => .recoverable ((e.referencesTo root).map fun r => ⟨kind, r.target⟩) := by
  have hedge (r : Reference) : edge r =
      ((Option.guard (·.segmentCount < least) r).map report).elim
        (.ok ⟨kind, r.target⟩) .error := by
    rw [h, Option.guard]
    by_cases hr : r.segmentCount < least <;> simp [hr]
  unfold edgesOf Expression.short? Expression.referencesTo
  rw [mapM_eq hedge]
  simp only [← Function.comp_def, ← List.map_findSome?, List.findSome?_guard]
  cases List.find? _ _ <;> rfl

/-- The edges of the references to a root that is a kind of dependency. -/
def Expression.edgesTo (e : Expression) (root : String) : List Edge :=
  if root = "step" then (e.referencesTo root).map fun r => ⟨.step, r.target⟩
  else if root = "credential" then (e.referencesTo root).map fun r => ⟨.credential, r.target⟩
  else []

instance (block : BlockContext) (name : String) : Decidable (block.Binds name) :=
  inferInstanceAs (Decidable (_ ∨ _))

theorem BlockContext.binds_step (block : BlockContext) : block.Binds "step" := .inl (by decide)

theorem BlockContext.binds_credential (block : BlockContext) : block.Binds "credential" :=
  .inl (by decide)

theorem classifyRoot_eq (name : String) (e : Expression) (block : BlockContext) :
    classifyRoot name e block = match e.malformed? name with
      | some d => .unrecoverable (some d)
      | none =>
        if block.Binds name then .recoverable (e.edgesTo name) else .unrecoverable none := by
  unfold classifyRoot
  split
  · rw [edgesOf_eq stepEdge_eq, Expression.malformed?, if_pos rfl, if_pos block.binds_step,
      Expression.edgesTo, if_pos rfl]
    cases e.short? "step" 3 <;> rfl
  · rw [edgesOf_eq credentialEdge_eq, Expression.malformed?, if_neg (by decide), if_pos rfl,
      if_pos block.binds_credential, Expression.edgesTo, if_neg (by decide), if_pos rfl]
    cases e.short? "credential" 2 <;> rfl
  · rfl
  · rfl
  · rfl
  · cases block <;> rfl
  · cases block <;> rfl
  · cases block <;> rfl
  · rename_i h1 h2 h3 h4 h5 h6 h7 h8
    have hb : ¬block.Binds name := by
      simp only [BlockContext.Binds, List.mem_cons, List.not_mem_nil, or_false]
      rintro ((h | h | h | h | h) | ⟨h, -⟩ | ⟨h, -⟩ | ⟨h, -⟩) <;> contradiction
    rw [Expression.malformed?, if_neg h1, if_neg h2]
    exact (if_neg hb).symm

namespace Expression
variable {e : Expression} {ctx : ResolutionContext}

theorem short?_eq_none {root : String} {least : Nat} :
    e.short? root least = none ↔ ∀ r ∈ e.referencesTo root, least ≤ r.segmentCount := by
  simp [short?]

theorem deferrable_iff :
    e.Deferrable ctx ↔ ∀ name ∈ e.unknownRoots ctx.environment,
      (classifyRoot name e ctx.block).isRecoverable = true := by
  have recoverable (name : String) : (classifyRoot name e ctx.block).isRecoverable = true ↔
      e.malformed? name = none ∧ ctx.block.Binds name := by
    rw [classifyRoot_eq]
    cases e.malformed? name with
    | some d => simp [Verdict.isRecoverable]
    | none => by_cases hb : ctx.block.Binds name <;> simp [hb, Verdict.isRecoverable]
  simp only [recoverable]
  constructor
  · intro h name hn
    refine ⟨?_, h.bound name hn⟩
    unfold malformed?
    split
    · rename_i hs
      subst hs
      rw [short?_eq_none.2 (h.steps hn), Option.map_none]
    · split
      · rename_i hc
        subst hc
        rw [short?_eq_none.2 (h.credentials hn), Option.map_none]
      · rfl
  · intro h
    refine ⟨fun name hn => (h name hn).2, fun hn => ?_, fun hn => ?_⟩
    · have hm := (h _ hn).1
      rwa [malformed?, if_pos rfl, Option.map_eq_none_iff, short?_eq_none] at hm
    · have hm := (h _ hn).1
      rwa [malformed?, if_neg (by decide), if_pos rfl, Option.map_eq_none_iff,
        short?_eq_none] at hm

instance (e : Expression) (ctx : ResolutionContext) : Decidable (e.Deferrable ctx) :=
  decidable_of_iff' _ deferrable_iff

theorem unknownRoots_nodup (e : Expression) (env : Environment) : (e.unknownRoots env).Nodup :=
  e.nodup_roots.filter _

/-- The batch that an evaluation reports holds every unbound root once. -/
theorem distinctSymbols_unknown (ctx : ResolutionContext) {names seen : List String}
    (h : (seen ++ names).Nodup) :
    distinctSymbols ctx seen (names.map Diagnostic.unknownVariable) =
      names.map Diagnostic.unknownVariable := by
  induction names generalizing seen with
  | nil => rfl
  | cons name names ih =>
    have hs : name ∉ seen := fun hn =>
      (List.nodup_append.1 h).2.2 name hn name List.mem_cons_self rfl
    have hn : ((name :: seen) ++ names).Nodup := List.perm_middle.nodup_iff.1 h
    simp only [List.map_cons, distinctSymbols, Diagnostic.unknownSymbol?,
      Diagnostic.unknownVariable]
    rw [if_neg (by simpa using hs)]
    exact congrArg _ (ih hn)

theorem classifyAll_unknown (e : Expression) (ctx : ResolutionContext) {names : List String}
    (h : names.Nodup) :
    classifyAll (names.map Diagnostic.unknownVariable) e ctx =
      ⟨names.all fun name => (classifyRoot name e ctx.block).isRecoverable,
        names.flatMap fun name => (classifyRoot name e ctx.block).edges,
        names.filterMap fun name => (classifyRoot name e ctx.block).report?⟩ := by
  have verdict (name : String) :
      classify (.unknownVariable name) e ctx = classifyRoot name e ctx.block := rfl
  rw [classifyAll_distinct, distinctSymbols_unknown ctx (by simpa using h)]
  simp [List.all_map, List.flatMap_map, List.filterMap_map, Function.comp_def, verdict]

theorem evaluateWith_of_unknown {env : Environment} (unknown : e.unknownRoots env ≠ [])
    (w : Wording) :
    e.evaluateWith env w = .error ((e.unknownRoots env).map Diagnostic.unknownVariable) := by
  unfold evaluateWith
  split
  · exact absurd rfl unknown
  · split
    · contradiction
    · rfl

theorem report?_classifyRoot (name : String) (e : Expression) (block : BlockContext) :
    (classifyRoot name e block).report? = e.malformed? name := by
  rw [classifyRoot_eq]
  cases e.malformed? name with
  | some d => rfl
  | none => by_cases hb : block.Binds name <;> simp [hb, Verdict.report?]

theorem edges_classifyRoot {name : String} {block : BlockContext}
    (h : (classifyRoot name e block).isRecoverable = true) :
    (classifyRoot name e block).edges = e.edgesTo name := by
  rw [classifyRoot_eq] at h ⊢
  cases hm : e.malformed? name with
  | some d => simp [hm, Verdict.isRecoverable] at h
  | none =>
    by_cases hb : block.Binds name
    · simp [hb, Verdict.edges]
    · simp [hm, hb, Verdict.isRecoverable] at h

/-- In a list without repetition one name contributes at most once. -/
theorem flatMap_single {names : List String} (h : names.Nodup) (root : String) (xs : List α) :
    names.flatMap (fun name => if name = root then xs else []) =
      if root ∈ names then xs else [] := by
  induction names with
  | nil => rfl
  | cons name names ih =>
    obtain ⟨hn, hs⟩ := List.nodup_cons.1 h
    rw [List.flatMap_cons, ih hs]
    by_cases hr : name = root
    · subst hr
      simp [hn]
    · simp [hr, Ne.symm hr]

theorem targetsOf_edgesTo (kind : EdgeKind) (name : String) :
    DependencySet.targetsOf kind (e.edgesTo name) =
      if name = kind.root then (e.referencesTo kind.root).map Reference.target else [] := by
  unfold edgesTo
  split
  · rename_i hs
    subst hs
    rw [DependencySet.targetsOf_map]
    cases kind <;> simp [EdgeKind.root]
  · split
    · rename_i hc
      subst hc
      rw [DependencySet.targetsOf_map]
      cases kind <;> simp [EdgeKind.root]
    · cases kind <;> simp_all [EdgeKind.root, DependencySet.targetsOf]

theorem ofEdges_edgesTo (e : Expression) (env : Environment) :
    DependencySet.ofEdges ((e.unknownRoots env).flatMap e.edgesTo) = e.awaited env := by
  rw [DependencySet.ofEdges_eq, DependencySet.targetsOf_flatMap, DependencySet.targetsOf_flatMap]
  simp only [targetsOf_edgesTo, flatMap_single (e.unknownRoots_nodup env)]
  unfold awaited targetsOf
  congr 1
  · by_cases h : "step" ∈ e.unknownRoots env <;> simp [EdgeKind.root, h]
  · by_cases h : "credential" ∈ e.unknownRoots env <;> simp [EdgeKind.root, h]

theorem orAbout_unboundReports (e : Expression) (env : Environment) (location : Location) :
    Diagnostics.orAbout (e.unboundReports env) location =
      (e.unboundReports env).map (·.about location) := by
  apply List.map_congr_left
  intro d hd
  have hs : d.subject = none := by
    rcases List.mem_append.1 hd with h | h
    · obtain ⟨name, -, rfl⟩ := List.mem_map.1 h
      rfl
    · obtain ⟨name, -, hm⟩ := List.mem_filterMap.1 h
      unfold malformed? at hm
      split at hm
      · obtain ⟨r, -, rfl⟩ := Option.map_eq_some_iff.1 hm
        rfl
      · split at hm
        · obtain ⟨r, -, rfl⟩ := Option.map_eq_some_iff.1 hm
          rfl
        · cases hm
  simp [Diagnostic.orAbout, Diagnostic.about, hs]

theorem resolve_of_deferrable (location : Location) (unknown : e.unknownRoots ctx.environment ≠ [])
    (h : e.Deferrable ctx) :
    e.resolve location ctx = .deferred (e.awaited ctx.environment) := by
  have hall := deferrable_iff.1 h
  unfold resolve
  rw [evaluateWith_of_unknown unknown]
  simp only [classifyAll_unknown e ctx (e.unknownRoots_nodup _)]
  rw [if_pos (List.all_eq_true.2 hall), List.flatMap_def, List.map_congr_left fun name hn =>
    edges_classifyRoot (hall name hn), ← List.flatMap_def, ofEdges_edgesTo]

theorem resolve_of_not_deferrable (location : Location)
    (unknown : e.unknownRoots ctx.environment ≠ []) (h : ¬e.Deferrable ctx) :
    e.resolve location ctx =
      .failed ((e.unboundReports ctx.environment).map (·.about location)) := by
  unfold resolve
  rw [evaluateWith_of_unknown unknown]
  simp only [classifyAll_unknown e ctx (e.unknownRoots_nodup _), report?_classifyRoot]
  rw [if_neg fun hall => h (deferrable_iff.2 (List.all_eq_true.1 hall)),
    ← orAbout_unboundReports, unboundReports, Diagnostics.orAbout, Diagnostics.orAbout,
    Diagnostics.orAbout, ← List.map_append]

/-- An expression with unbound roots waits exactly when it is deferrable, and then for its
dependencies in the order of their first occurrence; otherwise it fails with all its reports and
without dependencies. -/
theorem resolve_of_unknown (e : Expression) (location : Location) (ctx : ResolutionContext)
    (unknown : e.unknownRoots ctx.environment ≠ []) :
    ((e.resolve location ctx).outcome = .deferred ↔ e.Deferrable ctx) ∧
      (e.Deferrable ctx → e.resolve location ctx = .deferred (e.awaited ctx.environment)) ∧
      (¬e.Deferrable ctx → e.resolve location ctx =
        .failed ((e.unboundReports ctx.environment).map (·.about location))) := by
  refine ⟨⟨fun ho => Decidable.byContradiction fun h => ?_, fun h => ?_⟩,
    resolve_of_deferrable location unknown, resolve_of_not_deferrable location unknown⟩
  · rw [resolve_of_not_deferrable location unknown h] at ho
    cases ho
  · rw [resolve_of_deferrable location unknown h]
    rfl

/-- A step reference next to a dynamic credential, with nothing bound. -/
theorem resolve_of_unknown_pair :
    (tuple [term (.access (.variable "step") [.member "http", .member "a", .member "ok"]),
        term (.access (.variable "credential") [.member "aws"])]).resolve default
      ⟨.empty, {}, .plain, .brief⟩ = .deferred ⟨["http.a"], ["aws.<dynamic>"]⟩ :=
  (resolve_of_unknown _ default ⟨.empty, {}, .plain, .brief⟩ (by decide)).2.1 (by decide)

end Expression
end PipelineResolution
