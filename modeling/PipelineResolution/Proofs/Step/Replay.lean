import PipelineResolution.Proofs.Execution.Environment
import PipelineResolution.Proofs.Step.Moves
import PipelineResolution.Step.Run

/-!
# Deferred attributes are replayed

What waits for run time is stored then, in the order of names, over the settings of the document. The
engine receives what it would receive from the same block with all values written out, as long as no
attribute after a deferred one is kept in its place and choices are declared before they are filled.
-/
namespace PipelineResolution

/-- The value of an expression, null where it has none. -/
def Expression.valueIn (env : Environment) (e : Expression) : Value :=
  (e.evaluate env).toOption.getD .null

theorem Expression.valueIn_eq {e : Expression} {env : Environment} {v : Value}
    (h : e.evaluate env = .ok v) : e.valueIn env = v := by
  rw [valueIn, h]
  rfl

namespace StepSpec
variable {q : StepSpec} {d : Dict Expression} {env : Environment} {name : String} {v : Value}

/-- The settings with the values of the deferred attributes of the kind. -/
def settle (env : Environment) (d : Dict Expression) (q : StepSpec) : StepSpec :=
  List.foldl (fun q (entry : String × Expression) =>
    if entry.1 ∈ Step.waitingNames then q else q.store entry.1 (entry.2.valueIn env)) q d

theorem settle_cons (entry : String × Expression) : settle env (entry :: d) q = settle env d
    (if entry.1 ∈ Step.waitingNames then q else q.store entry.1 (entry.2.valueIn env)) := rfl

@[simp] theorem kind_settle : (q.settle env d).kind = q.kind := by
  induction d generalizing q with
  | nil => rfl
  | cons entry d ih =>
    rw [settle_cons, ih]
    split <;> rfl

/-- The deferred attributes of the kind can be stored in any order. -/
def Ready (q : StepSpec) (d : Dict Expression) : Prop :=
  ∀ entry ∈ d, entry.1 ∉ Step.waitingNames → q.Opens (q.kind.place entry.1)

/-- No deferred attribute of the kind is kept in the place of a name. -/
def Fresh (q : StepSpec) (d : Dict Expression) (name : String) : Prop :=
  ∀ entry ∈ d, entry.1 ∉ Step.waitingNames → q.kind.place name ≠ q.kind.place entry.1

theorem Ready.store (h : q.Ready d) (n : String) (v : Value) : (q.store n v).Ready d :=
  fun entry he hn => (h entry he hn).store n v

theorem Ready.openBlock (h : q.Ready d) (type : String) (labels : List String) :
    (q.openBlock type labels).Ready d :=
  fun entry he hn => (h entry he hn).openBlock type labels

theorem settle_store (ready : q.Ready d) (fresh : q.Fresh d name) :
    (q.store name v).settle env d = (q.settle env d).store name v := by
  induction d generalizing q with
  | nil => rfl
  | cons entry d ih =>
    obtain ⟨hready, ready⟩ := List.forall_mem_cons.1 ready
    obtain ⟨hfresh, fresh⟩ := List.forall_mem_cons.1 fresh
    rw [settle_cons, settle_cons]
    split
    · exact ih ready fresh
    · rename_i own
      rw [store_comm (Ne.symm (hfresh own)) (hready own)]
      exact ih (Ready.store ready _ _) fresh

theorem settle_openBlock (ready : q.Ready d) (type : String) (labels : List String) :
    (q.openBlock type labels).settle env d = (q.settle env d).openBlock type labels := by
  induction d generalizing q with
  | nil => rfl
  | cons entry d ih =>
    obtain ⟨hready, ready⟩ := List.forall_mem_cons.1 ready
    rw [settle_cons, settle_cons]
    split
    · exact ih ready
    · rename_i own
      rw [← openBlock_store (hready own)]
      exact ih (Ready.store ready _ _)

/-- It does not matter where a deferred attribute stands among those of other places. -/
theorem settle_insert {e : Expression} (sorted : d.Sorted) (own : name ∉ Step.waitingNames)
    (ready : q.Ready d) (fresh : ∀ entry ∈ d, entry.1 ∉ Step.waitingNames → entry.1 ≠ name →
      q.kind.place name ≠ q.kind.place entry.1) (fits : q.kind.Fits name (e.valueIn env)) :
    q.settle env (d.insert name e) = (q.settle env d).store name (e.valueIn env) := by
  induction d generalizing q with
  | nil => exact congrArg (settle env []) (if_neg own)
  | cons entry d ih =>
    obtain ⟨k, f⟩ := entry
    obtain ⟨above, sorted⟩ := List.pairwise_cons.1 sorted
    unfold Dict.insert
    split
    · rename_i first
      have fresh : q.Fresh ((k, f) :: d) name := by
        refine fun entry he hn => fresh entry he hn fun same => String.lt_irrefl name ?_
        rcases List.mem_cons.1 he with rfl | he
        · rwa [← same] at first ⊢
        · exact String.lt_trans first (same ▸ above entry he)
      rw [settle_cons, if_neg own, settle_store ready fresh]
    · obtain ⟨-, ready⟩ := List.forall_mem_cons.1 ready
      obtain ⟨hfresh, fresh⟩ := List.forall_mem_cons.1 fresh
      split
      · rename_i same
        subst same
        have fresh : q.Fresh d k := fun entry he hn =>
          fresh entry he hn fun same => String.lt_irrefl k (same ▸ above entry he)
        rw [settle_cons, settle_cons, if_neg own, if_neg own, settle_store ready fresh,
          settle_store ready fresh, store_store rfl]
        rwa [kind_settle]
      · rw [settle_cons, settle_cons]
        split
        · exact ih sorted ready fresh fits
        · exact ih sorted (Ready.store ready _ _) fresh fits

/-- Attributes that every step takes do not reach the settings. -/
theorem settle_insert_waiting {e : Expression} (waiting : name ∈ Step.waitingNames) :
    q.settle env (d.insert name e) = q.settle env d := by
  induction d generalizing q with
  | nil => exact congrArg (settle env []) (if_pos waiting)
  | cons entry d ih =>
    obtain ⟨k, f⟩ := entry
    unfold Dict.insert
    split
    · rw [settle_cons, if_pos waiting]
    · split
      · rename_i same
        rw [settle_cons, settle_cons, if_pos waiting, if_pos (same ▸ waiting)]
      · rw [settle_cons, settle_cons, ih]

end StepSpec

/-- The value of an attribute, unless every step takes it, in place of its expression. -/
def Expression.settling (env : Environment) (name : String) (e : Expression) : Expression :=
  if name ∈ Step.commonNames then e else .literal (e.valueIn env)

/-- What is literal is resolved to its value. -/
theorem Attribute.resolve_literal {a : Attribute} {v : Value} (h : a.expression = .literal v)
    (ctx : ResolutionContext) : (a.resolve ctx).outcome = .resolved v := by
  unfold Attribute.resolve
  rw [h]
  rfl

namespace Block

/-- The block with the value of each expression that is not that of a common attribute. -/
def settled (b : Block) (kind : StepKind) (env : Environment) : Block :=
  b.mapAttributes kind (Expression.settling env)

/-- Whatever comes after a deferred attribute and is kept in its place is deferred too, under the
same name, and a choice that a deferred attribute belongs to has been declared before. -/
def Replayable (b : Block) (kind : StepKind) (ctx : ResolutionContext) : Prop :=
  ∀ before name a after, b.moves kind = before ++ .set name a :: after →
    (a.resolve ctx).outcome = .deferred →
    (∀ other c, .set other c ∈ after → kind.place other = kind.place name →
      other = name ∧ (c.resolve ctx).outcome = .deferred) ∧
    ∀ choice, (kind.place name).option? = some choice → .open "option" [choice] ∈ before

end Block

/-- The place that a move fills. -/
def Move.place? (kind : StepKind) : Move → Option Place
  | .set name _ => some (kind.place name)
  | _ => none

/-- A block that fills each place once, and none of a choice, can be replayed. -/
theorem Block.replayable_of_nodup {b : Block} {kind : StepKind} (ctx : ResolutionContext)
    (distinct : ((b.moves kind).filterMap (Move.place? kind)).Nodup)
    (plain : ∀ a ∈ (b.moves kind).filterMap (Move.place? kind), a.option? = none) :
    b.Replayable kind ctx := by
  intro before name a after split _
  rw [split, List.filterMap_append] at distinct plain
  have once := (List.nodup_cons.1 (List.nodup_append.1 distinct).2.1).1
  refine ⟨fun other c later same => absurd ?_ once, fun choice hc => ?_⟩
  · exact List.mem_filterMap.2 ⟨_, later, congrArg some same⟩
  · have none := plain (kind.place name) (List.mem_append_right _ List.mem_cons_self)
    rw [hc] at none
    cases none

/-- How far the settings of a block and those of the settled block agree: the values of the deferred
attributes are all that is missing. -/
structure Replays (ctx : ResolutionContext) (env : Environment) (before after : List Move)
    (x y : Intake) : Prop where
  spec : y.spec = x.spec.settle env x.deferred
  deferred : y.deferred = x.deferred.filter (Step.waitingNames.contains ·.1)
  sorted : x.deferred.Sorted
  ready : x.spec.Ready x.deferred
  fresh : ∀ name a, .set name a ∈ after → ∀ entry ∈ x.deferred, entry.1 ∉ Step.waitingNames →
    x.spec.kind.place name = x.spec.kind.place entry.1 →
    name = entry.1 ∧ (a.resolve ctx).outcome = .deferred
  fits : ∀ entry ∈ x.deferred, entry.1 ∉ Step.waitingNames →
    ∃ v, entry.2.evaluate env = .ok v ∧ x.spec.kind.Fits entry.1 v
  declared : ∀ name, (∀ choice, (x.spec.kind.place name).option? = some choice →
    .open "option" [choice] ∈ before) → x.spec.Opens (x.spec.kind.place name)

namespace Replays
variable {env : Environment} {ctx : ResolutionContext} {before after : List Move} {m : Move}
  {x y x' y' : Intake} {name : String} {a : Attribute}

theorem advance (h : Replays ctx env before (m :: after) x y) (hm : ∀ type labels, m ≠ .open type labels) :
    Replays ctx env (before ++ [m]) after x y :=
  { h with
    fresh := fun name a ha => h.fresh name a (List.mem_cons_of_mem _ ha)
    declared := fun name ho => h.declared name fun choice hc =>
      (List.mem_append.1 (ho choice hc)).resolve_right fun last =>
        hm _ _ (List.mem_singleton.1 last).symm }

theorem «open» {type : String} {labels : List String}
    (h : Replays ctx env before (.open type labels :: after) x y) :
    Replays ctx env (before ++ [.open type labels]) after
      { x with spec := x.spec.openBlock type labels }
      { y with spec := y.spec.openBlock type labels } where
  spec := by
    rw [StepSpec.settle_openBlock h.ready]
    exact congrArg (·.openBlock type labels) h.spec
  deferred := h.deferred
  sorted := h.sorted
  ready := h.ready.openBlock type labels
  fresh name a ha := h.fresh name a (List.mem_cons_of_mem _ ha)
  fits := h.fits
  declared name ho := by
    by_cases earlier : ∀ choice, (x.spec.kind.place name).option? = some choice →
        .open "option" [choice] ∈ before
    · exact (h.declared name earlier).openBlock type labels
    · simp only [not_forall] at earlier
      obtain ⟨choice, hc, other⟩ := earlier
      have last := (List.mem_append.1 (ho choice hc)).resolve_left other
      cases List.mem_singleton.1 last
      exact StepSpec.opens_own hc

theorem wait (h : Replays ctx env before after x y) (waiting : name ∈ Step.waitingNames)
    (e : Expression) : Replays ctx env before after
      { x with deferred := x.deferred.insert name e }
      { y with deferred := y.deferred.insert name e } where
  spec := h.spec.trans (StepSpec.settle_insert_waiting waiting).symm
  deferred := by
    rw [h.sorted.filter_insert_of_keep (List.contains_iff_mem.2 waiting)]
    exact congrArg (Dict.insert · name e) h.deferred
  sorted := h.sorted.insert name e
  ready entry he own := by
    rcases Dict.mem_insert he with rfl | he
    · exact absurd waiting own
    · exact h.ready entry he own
  fresh other a ha entry he own := by
    rcases Dict.mem_insert he with rfl | he
    · exact absurd waiting own
    · exact h.fresh other a ha entry he own
  fits entry he own := by
    rcases Dict.mem_insert he with rfl | he
    · exact absurd waiting own
    · exact h.fits entry he own
  declared := h.declared

theorem store (h : Replays ctx env before after x y) (fresh : x.spec.Fresh x.deferred name) (v : Value) :
    Replays ctx env before after
      { x with spec := x.spec.store name v } { y with spec := y.spec.store name v } where
  spec := by
    rw [StepSpec.settle_store h.ready fresh]
    exact congrArg (·.store name v) h.spec
  deferred := h.deferred
  sorted := h.sorted
  ready := h.ready.store name v
  fresh := h.fresh
  fits := h.fits
  declared other ho := (h.declared other ho).store name v

theorem defer {e : Expression} (h : Replays ctx env before after x y) (own : name ∉ Step.waitingNames)
    (fresh : ∀ entry ∈ x.deferred, entry.1 ∉ Step.waitingNames → entry.1 ≠ name →
      x.spec.kind.place name ≠ x.spec.kind.place entry.1)
    (ready : x.spec.Opens (x.spec.kind.place name))
    (apart : ∀ other a, .set other a ∈ after → x.spec.kind.place other = x.spec.kind.place name →
      other = name ∧ (a.resolve ctx).outcome = .deferred)
    (fits : ∃ v, e.evaluate env = .ok v ∧ x.spec.kind.Fits name v) :
    Replays ctx env before after { x with deferred := x.deferred.insert name e }
      { y with spec := y.spec.store name (e.valueIn env) } where
  spec := by
    obtain ⟨v, hv, hfit⟩ := fits
    rw [StepSpec.settle_insert h.sorted own h.ready fresh (Expression.valueIn_eq hv ▸ hfit)]
    exact congrArg (StepSpec.store · name (e.valueIn env)) h.spec
  deferred := by
    refine h.deferred.trans (Dict.filter_insert (fun _ => ?_) x.deferred e).symm
    simpa using own
  sorted := h.sorted.insert name e
  ready entry he hn := by
    rcases Dict.mem_insert he with rfl | he
    · exact ready
    · exact h.ready entry he hn
  fresh other a ha entry he hn := by
    rcases Dict.mem_insert he with rfl | he
    · exact apart other a ha
    · exact h.fresh other a ha entry he hn
  fits entry he hn := by
    rcases Dict.mem_insert he with rfl | he
    · exact fits
    · exact h.fits entry he hn
  declared := h.declared

theorem set (h : Replays ctx env before (.set name a :: after) x y)
    (keeps : Keeps (a.expression.evaluate ctx.environment) (a.expression.evaluate env))
    (own : name ∉ Step.commonNames) (evaluates : ∃ v, a.expression.evaluate env = .ok v)
    (replayable : (a.resolve ctx).outcome = .deferred →
      (∀ other c, .set other c ∈ after → x.spec.kind.place other = x.spec.kind.place name →
        other = name ∧ (c.resolve ctx).outcome = .deferred) ∧
        ∀ choice, (x.spec.kind.place name).option? = some choice → .open "option" [choice] ∈ before)
    (hx : (Move.set name a).run ctx x = some x')
    (hy : ((Move.set name a).map (Expression.settling env)).run ctx y = some y') :
    Replays ctx env (before ++ [.set name a]) after x' y' := by
  obtain ⟨v, hv⟩ := evaluates
  have fresh := h.fresh name a List.mem_cons_self
  have advanced := h.advance fun _ _ => Move.noConfusion
  have literal : Expression.settling env name a.expression = .literal v := by
    rw [Expression.settling, if_neg own, Expression.valueIn_eq hv]
  obtain ⟨fits, rfl⟩ := (Move.run_set_of_resolved (Attribute.resolve_literal literal ctx)).1 hy
  rw [h.spec, StepSpec.kind_settle] at fits
  obtain ⟨w, ho, -, rfl⟩ | ⟨ho, rfl⟩ := Move.run_set_cases hx
  · obtain rfl : v = w :=
      Except.ok.inj (hv.symm.trans (keeps w (Expression.evaluate_of_resolved ho)))
    refine advanced.store (fun entry he hn same => ?_) v
    have deferred := (fresh entry he hn same).2
    rw [ho] at deferred
    cases deferred
  · obtain ⟨apart, declared⟩ := replayable ho
    rw [← Expression.valueIn_eq hv]
    exact advanced.defer (fun waiting => own (Step.common_of_waiting waiting))
      (fun entry he hn ne same => ne (fresh entry he hn same).1.symm) (h.declared name declared)
      apart ⟨v, hv, fits⟩

/-- The settings of the empty step agree. -/
theorem refl (k : StepKind) (after : List Move) :
    Replays ctx env [] after ⟨.ofKind k, []⟩ ⟨.ofKind k, []⟩ where
  spec := rfl
  deferred := rfl
  sorted := .nil
  ready := fun _ he => nomatch he
  fresh := fun _ _ _ _ he => nomatch he
  fits := fun _ he => nomatch he
  declared _ ho := fun choice hc => nomatch ho choice hc

variable {b : Block} {k : StepKind}

theorem step (kind : x.spec.kind = k) (split : b.moves k = before ++ m :: after)
    (keeps : ∀ e : Expression, Keeps (e.evaluate ctx.environment) (e.evaluate env))
    (evaluates : ∀ name a, .set name a ∈ b.moves k → ∃ v, a.expression.evaluate env = .ok v)
    (replayable : b.Replayable k ctx) (h : Replays ctx env before (m :: after) x y)
    (hx : m.run ctx x = some x') (hy : (m.map (Expression.settling env)).run ctx y = some y') :
    Replays ctx env (before ++ [m]) after x' y' := by
  have mem : m ∈ b.moves k := split ▸ List.mem_append_right _ List.mem_cons_self
  cases m with
  | wait a =>
    have waiting := Block.waiting_of_wait mem
    have kept : ({ a with expression := Expression.settling env a.name a.expression } : Attribute) =
        a := by
      rw [Expression.settling, if_pos (Step.common_of_waiting waiting)]
    have advanced := h.advance fun _ _ => Move.noConfusion
    simp only [Move.map, kept, Move.run, Option.some.injEq] at hx hy
    subst hx hy
    split
    · exact advanced.wait waiting a.expression
    · exact advanced
  | «open» type labels =>
    cases hx
    cases hy
    exact h.open
  | set name a =>
    refine h.set (keeps _) (Block.accepts_of_set mem).1 (evaluates name a mem) (fun hd => ?_) hx hy
    rw [kind]
    exact replayable before name a after split hd

theorem run (keeps : ∀ e : Expression, Keeps (e.evaluate ctx.environment) (e.evaluate env))
    (evaluates : ∀ name a, .set name a ∈ b.moves k → ∃ v, a.expression.evaluate env = .ok v)
    (replayable : b.Replayable k ctx) (split : b.moves k = before ++ after) (kind : x.spec.kind = k)
    (h : Replays ctx env before after x y) (hx : Move.runAll ctx after x = some x')
    (hy : Move.runAll ctx (after.map (Move.map (Expression.settling env))) y = some y') :
    Replays ctx env (b.moves k) [] x' y' := by
  induction after generalizing before x y with
  | nil =>
    cases hx
    cases hy
    rw [split, List.append_nil]
    exact h
  | cons m after ih =>
    rw [Move.runAll_cons] at hx
    rw [List.map_cons, Move.runAll_cons] at hy
    obtain ⟨x₁, hm, hx⟩ := Option.bind_eq_some_iff.1 hx
    obtain ⟨y₁, hm', hy⟩ := Option.bind_eq_some_iff.1 hy
    exact ih (split.trans (List.append_cons ..)) ((Move.kind_run hm).trans kind)
      (h.step kind split keeps evaluates replayable hm hm') hx hy

end Replays

namespace Step
variable {s s' : Step} {env : Environment} {q : StepSpec} {d : Dict Expression}

theorem put_waiting {name : String} (h : name ∈ waitingNames) (f : Filled) (v : Value) :
    f.put name v = .ok { f with timeout := if name = "timeout" then some v else f.timeout } := by
  simp only [waitingNames, List.mem_cons, List.not_mem_nil, or_false] at h
  rcases h with rfl | rfl | rfl | rfl <;> rfl

theorem put_own {name : String} (h : name ∉ waitingNames) (f : Filled) (v : Value) :
    f.put name v = (f.spec.set name v).map fun spec => { f with spec } := by
  simp only [waitingNames, List.mem_cons, List.not_mem_nil, or_false, not_or] at h
  unfold Filled.put
  split
  · exact absurd rfl h.2.2.2
  · exact absurd rfl h.1
  · exact absurd rfl h.2.1
  · exact absurd rfl h.2.2.1
  · rfl

/-- A common attribute is filled in alike whatever the settings are. -/
theorem fill_waiting {entry : String × Expression} (h : entry.1 ∈ waitingNames) (s : Step)
    (env : Environment) (timeout : Option Value) (ds : Diagnostics) :
    ∃ t more, ∀ q, s.fill env ⟨q, timeout, ds⟩ entry = .ok ⟨q, t, more⟩ := by
  unfold fill
  cases entry.2.evaluate env with
  | ok v =>
    refine ⟨if entry.1 = "timeout" then some v else timeout, ds, fun q => ?_⟩
    dsimp only
    rw [put_waiting h]
    rfl
  | error found => exact ⟨timeout, ds ++ found.orAbout (s.location.child entry.1), fun q => rfl⟩

/-- The deferred attributes of the kind can be stored before the others are gone through. -/
theorem foldlM_fill (fits : ∀ entry ∈ d, entry.1 ∉ waitingNames →
      ∃ v, entry.2.evaluate env = .ok v ∧ q.kind.Fits entry.1 v) (timeout : Option Value)
    (ds : Diagnostics) : List.foldlM (s.fill env) ⟨q, timeout, ds⟩ d =
      List.foldlM (s.fill env) ⟨q.settle env d, timeout, ds⟩
        (List.filter (waitingNames.contains ·.1) d) := by
  induction d generalizing q timeout ds with
  | nil => rfl
  | cons entry d ih =>
    obtain ⟨hfits, fits⟩ := List.forall_mem_cons.1 fits
    rw [List.foldlM_cons, StepSpec.settle_cons]
    by_cases waiting : entry.1 ∈ waitingNames
    · obtain ⟨t, more, filled⟩ := fill_waiting waiting s env timeout ds
      have kept : List.filter (waitingNames.contains ·.1) (entry :: d) =
          entry :: List.filter (waitingNames.contains ·.1) d :=
        List.filter_cons_of_pos (List.contains_iff_mem.2 waiting)
      rw [if_pos waiting, kept, List.foldlM_cons, filled, filled]
      exact ih fits t more
    · obtain ⟨v, hv, hfit⟩ := hfits waiting
      have stored : s.fill env ⟨q, timeout, ds⟩ entry =
          .ok ⟨q.store entry.1 v, timeout, ds⟩ := by
        unfold fill
        rw [hv]
        dsimp only
        rw [put_own waiting, StepSpec.set_eq_ok.2 ⟨hfit, rfl⟩]
        rfl
      rw [if_neg waiting, List.filter_cons_of_neg (by simpa using waiting), stored,
        Expression.valueIn_eq hv]
      exact ih (q := q.store entry.1 v) fits timeout ds

theorem inputs_taking {x : Intake} (kind : x.spec.kind = s.kind) (dependencies : DependencySet)
    (same : List.foldlM (s.fill env) ⟨s.spec, s.timeout, []⟩ s.deferred =
      List.foldlM (s.fill env) ⟨x.spec, s.timeout, []⟩ x.deferred) :
    s.inputs env = (s.taking x dependencies).inputs env := by
  have name : (s.taking x dependencies).fullName = s.fullName :=
    congrArg (fun k => Keyword.spell k ++ "." ++ s.name) kind
  have fill : (s.taking x dependencies).fill env = s.fill env := by
    funext f entry
    unfold Step.fill
    rw [name]
    rfl
  unfold inputs
  rw [same, name, fill]
  rfl

/-- The engine receives the same from a step and from the step of the block with all values written
out, if the deferred attributes can be replayed in the order of their names. -/
theorem inputs_settled {b : Block} {pipeline : String} {ctx : ResolutionContext}
    (includes : ctx.environment.Includes env) (apart : ctx.environment.Apart env)
    (sorted : ctx.environment.bindings.Sorted) (sorted' : env.bindings.Sorted)
    (accepted : ofBlock b pipeline ctx = .ok s)
    (evaluates : ∀ name a, .set name a ∈ b.moves s.kind → ∃ v, a.expression.evaluate env = .ok v)
    (accepted' : ofBlock (b.settled s.kind env) pipeline ctx = .ok s')
    (replayable : b.Replayable s.kind ctx) : s.inputs env = s'.inputs env := by
  have keeps (e : Expression) : Keeps (e.evaluate ctx.environment) (e.evaluate env) :=
    e.evaluate_within includes apart sorted sorted'
  have run := run_moves accepted
  have run' := run_moves accepted'
  rw [kind_ofBlock_mapAttributes accepted accepted', Block.settled, Block.moves_mapAttributes] at run'
  have replays : Replays ctx env (b.moves s.kind) [] s.intake s'.intake :=
    .run keeps evaluates replayable (List.nil_append _).symm rfl (.refl _ _) run run'
  have fixed : ∀ name ∈ commonNames, ∀ e, Expression.settling env name e = e :=
    fun _ common _ => if_pos common
  obtain ⟨d, ds, -, decoded⟩ := ofBlock_mapAttributes fixed accepted run'
  obtain ⟨-, taken⟩ := Diagnostics.orValue_eq_ok.1 (decoded.symm.trans accepted')
  refine (inputs_taking (Move.kind_runAll run') d ?_).trans (congrArg (inputs · env) taken)
  rw [replays.spec, replays.deferred]
  exact foldlM_fill replays.fits s.timeout []

/-- A run that hands a recipient over. -/
def addressing : Environment := ⟨[("param", .map [("to", .string "a")])]⟩

/-- The block of a message to a recipient that only the run knows, with one attribute more in its
`notify` block. -/
def notifying (name : String) : Block :=
  ⟨"step", ["message", "m"],
    [⟨"text", .literal (.string "hi"), default⟩,
      ⟨"to", .term (.access (.variable "param") [.member "to"]), default⟩],
    [⟨"notify", [], [⟨name, .literal (.string "b"), default⟩], [], default, []⟩], default, []⟩

def sending (m : Message) (d : Dict Expression) : Step :=
  { ofKind .message "m" "p" with spec := ⟨.message, m⟩, deferred := d, location := default }

def waitingRecipient : Dict Expression :=
  [("to", .term (.access (.variable "param") [.member "to"]))]

theorem evaluates_notifying {inner name : String} {a : Attribute}
    (h : .set name a ∈ (notifying inner).moves .message) :
    ∃ v, a.expression.evaluate addressing = .ok v := by
  have mem := Block.attribute_of_set h
  simp only [notifying, List.flatMap_cons, List.flatMap_nil, List.cons_append, List.nil_append,
    List.append_nil, List.mem_cons, List.not_mem_nil, or_false] at mem
  rcases mem with rfl | rfl | rfl
  · exact ⟨_, rfl⟩
  · exact ⟨_, rfl⟩
  · exact ⟨_, rfl⟩

/-- A recipient that waits is added to a message with another copy. -/
theorem inputs_settled_message :
    (sending { text := some "hi", cc := some ["b"] } waitingRecipient).inputs addressing =
      (sending { text := some "hi", recipients := some ["a"], cc := some ["b"] } []).inputs
        addressing := by
  have accepted : ofBlock (notifying "cc") "p" ⟨.empty, {}, .plain, .brief⟩ =
      .ok (sending { text := some "hi", cc := some ["b"] } waitingRecipient) := rfl
  have accepted' :
      ofBlock ((notifying "cc").settled .message addressing) "p" ⟨.empty, {}, .plain, .brief⟩ =
        .ok (sending { text := some "hi", recipients := some ["a"], cc := some ["b"] } []) := rfl
  have includes : Environment.empty.Includes addressing := .of_forall_mem (fun _ h => nomatch h)
  exact inputs_settled includes (by decide) (by decide) (by decide) accepted
    (fun _ _ => evaluates_notifying) accepted'
    (Block.replayable_of_nodup _ (by decide) (by decide))

/-- Without distinct places the waiting recipient wins over a later one. -/
theorem not_inputs_settled_of_shared :
    ¬∀ (b : Block) (pipeline : String) (ctx : ResolutionContext) (env : Environment) (s s' : Step),
      (b.attributes.map (·.name)).Nodup → (∀ c ∈ b.blocks, (c.attributes.map (·.name)).Nodup) →
      ctx.environment.bindings.Sorted → env.bindings.Sorted → ctx.environment.Includes env →
      ofBlock b pipeline ctx = .ok s →
      (∀ name a, .set name a ∈ b.moves s.kind → ∃ v, a.expression.evaluate env = .ok v) →
      ofBlock (b.settled s.kind env) pipeline ctx = .ok s' → s.inputs env = s'.inputs env := by
  intro claim
  have accepted : ofBlock (notifying "to") "p" ⟨.empty, {}, .plain, .brief⟩ =
      .ok (sending { text := some "hi", recipients := some ["b"] } waitingRecipient) := rfl
  have accepted' :
      ofBlock ((notifying "to").settled .message addressing) "p" ⟨.empty, {}, .plain, .brief⟩ =
        .ok (sending { text := some "hi", recipients := some ["b"] } []) := rfl
  have includes : Environment.empty.Includes addressing := .of_forall_mem (fun _ h => nomatch h)
  have equal := claim _ _ _ addressing _ _ (by decide) (by decide) (by decide) (by decide) includes
    accepted (fun _ _ => evaluates_notifying) accepted'
  have left : (sending { text := some "hi", recipients := some ["b"] } waitingRecipient).inputs
      addressing = .ok [("text", .string "hi"), ("to", .list [.string "a"])] := rfl
  have right : (sending { text := some "hi", recipients := some ["b"] } []).inputs addressing =
      .ok [("text", .string "hi"), ("to", .list [.string "b"])] := rfl
  rw [left, right] at equal
  simp at equal

end Step
end PipelineResolution
