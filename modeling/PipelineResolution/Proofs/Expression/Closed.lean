import PipelineResolution.Proofs.Expression.Completeness

/-!
# Expressions without names

An expression that refers to nothing gives the same in every environment. One that refers to a name
does not: where nothing is bound the name is reported as unknown, and where it is bound no
evaluation does that.
-/
namespace PipelineResolution

/-- What is the same in all environments. -/
def Environment.Constant {α : Type} (f : Environment → α) : Prop := ∀ env env', f env = f env'

/-- A computation that reports a name as unknown. -/
def ReportsUnknown {α : Type} (name : String) (x : Except Diagnostics α) : Prop :=
  ∃ d ∈ reportsOf x, d.kind = .unknownVariable name

/-- The environment in which a name is all that is bound. -/
def Environment.binding (name : String) : Environment := ⟨[(name, .null)]⟩

namespace ReportsUnknown
variable {α β : Type} {name : String} {x : Except Diagnostics α}

theorem mapError {f : Diagnostics → Diagnostics}
    (kinds : ∀ ds, (f ds).map (·.kind) = ds.map (·.kind)) :
    ReportsUnknown name (x.mapError f) ↔ ReportsUnknown name x := by
  cases x with
  | ok a => exact Iff.rfl
  | error ds =>
    have same (ds : Diagnostics) : ReportsUnknown name (.error ds : Except Diagnostics α) ↔
        DiagnosticKind.unknownVariable name ∈ ds.map (·.kind) := List.mem_map.symm
    rw [same, ← kinds ds]
    exact same (f ds)

/-- What follows a computation reports no name when all its own reports are of another kind. -/
theorem bind {f : α → Except Diagnostics β} (other : ∀ a, ¬ReportsUnknown name (f a)) :
    ReportsUnknown name (x >>= f) ↔ ReportsUnknown name x := by
  cases x with
  | ok a => exact iff_of_false (other a) fun ⟨_, h, _⟩ => nomatch h
  | error ds => exact Iff.rfl

end ReportsUnknown

theorem Diagnostics.kind_orAbout (ds : Diagnostics) (subject : Location) :
    (ds.orAbout subject).map (·.kind) = ds.map (·.kind) := by
  rw [Diagnostics.orAbout, List.map_map]
  rfl

namespace Expression
variable {e : Expression} {name : String}

theorem constant_evaluate (closed : e.roots = []) (covered : e.Covered) :
    Environment.Constant e.evaluate := by
  have unread : e.reads = [] := List.eq_nil_iff_forall_not_mem.2 fun r hr => by
    simpa [closed] using covered r hr
  intro env env'
  rw [evaluate_of_bound (by simp [closed]), evaluate_of_bound (by simp [closed])]
  exact eval_congr e fun r hr => by simp [unread] at hr

theorem reportsUnknown_empty (h : name ∈ e.roots) : ReportsUnknown name (e.evaluate .empty) := by
  have unknown : name ∈ e.unknownRoots .empty := List.mem_filter.2 ⟨h, rfl⟩
  have stops : ⟨.unknownVariable name, ""⟩ ∈ e.stops .empty .brief := by
    unfold stops
    cases hu : e.unknownRoots .empty with
    | nil => simp [hu] at unknown
    | cons first rest =>
      rw [hu] at unknown
      exact List.mem_map_of_mem unknown
  exact ⟨.unknownVariable name, by rw [reportsOf_evaluate]; exact List.mem_map_of_mem stops, rfl⟩

theorem not_reportsUnknown_binding (identifier : Text.IsIdentifier name) (e : Expression) :
    ¬ReportsUnknown name (e.evaluate (.binding name)) := by
  rintro ⟨d, hd, kind⟩
  rw [reportsOf_evaluate] at hd
  obtain ⟨⟨err, more⟩, stopped, rfl⟩ := List.mem_map.1 hd
  cases err <;> cases kind
  unfold stops at stopped
  split at stopped
  · have found : (Environment.binding name).scope.get? name ≠ none := by
      have spelled : Text.identifierOf name = name := identifier
      simp [Environment.get?_scope, Environment.find?, Environment.binding, spelled]
    have covers : Scope.Covers ⟨[], .binding name⟩ (· ≠ name) e.reads := by
      intro r _ unbound root
      rw [root] at unbound
      exact found unbound
    exact unknown_of_errors e covers stopped rfl rfl
  · obtain ⟨unknown, hn, same⟩ := List.mem_map.1 stopped
    cases same
    have free := (List.mem_filter.1 hn).2
    simp [Environment.binds, Dict.contains, Dict.get?, Environment.binding] at free

end Expression

/-- A computation that is told by what some expressions evaluate to, and that reports the unknown
names of these expressions. -/
structure RestsOn {α : Type} (f : Environment → Except Diagnostics α) (es : List Expression) :
    Prop where
  congr : ∀ env env', (∀ e ∈ es, e.evaluate env = e.evaluate env') → f env = f env'
  reports : ∀ env name, ReportsUnknown name (f env) ↔
    ∃ e ∈ es, ReportsUnknown name (e.evaluate env)

namespace RestsOn
variable {α β : Type} {f : Environment → Except Diagnostics α} {es : List Expression}

theorem evaluate (e : Expression) : RestsOn e.evaluate [e] where
  congr _ _ same := same e List.mem_cons_self
  reports _ _ := by simp

theorem ok (a : α) : RestsOn (fun _ => .ok a) [] where
  congr _ _ _ := rfl
  reports _ _ := ⟨fun ⟨_, h, _⟩ => (nomatch h), fun ⟨_, h, _⟩ => (nomatch h)⟩

theorem mapError (h : RestsOn f es) {g : Diagnostics → Diagnostics}
    (kinds : ∀ ds, (g ds).map (·.kind) = ds.map (·.kind)) :
    RestsOn (fun env => (f env).mapError g) es where
  congr env env' same := congrArg (Except.mapError g) (h.congr env env' same)
  reports env name := (ReportsUnknown.mapError kinds).trans (h.reports env name)

theorem bind (h : RestsOn f es) {g : α → Except Diagnostics β}
    (other : ∀ name a, ¬ReportsUnknown name (g a)) : RestsOn (fun env => f env >>= g) es where
  congr env env' same := congrArg (· >>= g) (h.congr env env' same)
  reports env name := (ReportsUnknown.bind (other name)).trans (h.reports env name)

/-- Such a computation depends on the environment unless its expressions refer to nothing. -/
theorem constant_iff (h : RestsOn f es) (written : ∀ e ∈ es, e.Written)
    (covered : ∀ e ∈ es, e.Covered) : Environment.Constant f ↔ ∀ e ∈ es, e.roots = [] := by
  constructor
  · intro constant e he
    refine List.eq_nil_iff_forall_not_mem.2 fun name hn => ?_
    obtain ⟨r, hr, root⟩ := Expression.mem_roots.1 hn
    have identifier : Text.IsIdentifier name := root ▸ (written e he).isIdentifier_root hr
    have unbound : ReportsUnknown name (f .empty) :=
      (h.reports _ _).2 ⟨e, he, Expression.reportsUnknown_empty hn⟩
    rw [constant .empty (.binding name)] at unbound
    obtain ⟨other, -, reported⟩ := (h.reports _ _).1 unbound
    exact Expression.not_reportsUnknown_binding identifier other reported
  · intro closed env env'
    exact h.congr env env' fun e he =>
      Expression.constant_evaluate (closed e he) (covered e he) env env'

end RestsOn
end PipelineResolution
