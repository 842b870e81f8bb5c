import PipelineResolution.Proofs.Graph.Depths
import PipelineResolution.Proofs.Pipeline.Distinct

/-!
# Execution plans are correct

A plan exists exactly when all dependencies are declared and none of them leads back. Its waves
then order the steps by their longest chain of dependencies. Steps are told apart by their full
names, and the positions in the graph carry over to them one by one.
-/
namespace PipelineResolution.Plan
open Relation
variable {steps : List Step} {g : Graph}

/-- Some step has the name. -/
def Declared (steps : List Step) (name : String) : Prop := ∃ s ∈ steps, s.fullName = name

/-- Every dependency of every step is declared. -/
def AllDeclared (steps : List Step) : Prop :=
  ∀ s ∈ steps, ∀ target ∈ s.dependencies.steps, Declared steps target

/-- The first dependency in the order of declaration that no step has as its name. -/
def FirstUndeclared (steps : List Step) (s : Step) (target : String) : Prop :=
  ∃ before after earlier later, steps = before ++ s :: after ∧
    s.dependencies.steps = earlier ++ target :: later ∧ ¬Declared steps target ∧
    (∀ t ∈ earlier, Declared steps t) ∧
    ∀ u ∈ before, ∀ t ∈ u.dependencies.steps, Declared steps t

def Waits (steps : List Step) (s t : Step) : Prop :=
  s ∈ steps ∧ t ∈ steps ∧ t.fullName ∈ s.dependencies.steps

/-- A chain of `n` dependencies below a step. -/
inductive Chain (steps : List Step) : Step → Nat → Prop
  | here (s : Step) : Chain steps s 0
  | down {s t : Step} {n : Nat} (waits : Waits steps s t) (chain : Chain steps t n) :
      Chain steps s (n + 1)

/-- Some step waits for itself, maybe through others. -/
def Cyclic (steps : List Step) : Prop := ∃ s, TransGen (Waits steps) s s

/-- Waves in which every step stands as early as its dependencies allow. -/
structure IsPlan (steps : List Step) (waves : List (List Step)) : Prop where
  perm : waves.flatten.Perm steps
  nonempty : ∀ w ∈ waves, w ≠ []
  ordered : ∀ w ∈ waves, w.Sublist steps
  longest : ∀ (k : Nat) (w : List Step), waves[k]? = some w → ∀ s ∈ w, ∀ n, Chain steps s n ↔ n ≤ k

theorem mem_of_position? {name : String} {i : Nat} (h : position? steps name = some i) :
    ∃ s, steps[i]? = some s ∧ s.fullName = name := by
  obtain ⟨⟨s, j⟩, hm, rfl⟩ := List.mem_map.1 (List.mem_of_getLast? h)
  obtain ⟨hz, hn⟩ := List.mem_filter.1 hm
  exact ⟨s, List.mem_zipIdx_iff_getElem?.1 hz, by simpa using hn⟩

theorem position?_eq_none {name : String} : position? steps name = none ↔ ¬Declared steps name := by
  rw [position?, List.getLast?_eq_none_iff, List.map_eq_nil_iff, List.filter_eq_nil_iff]
  constructor
  · rintro h ⟨s, hs, hn⟩
    obtain ⟨i, hi⟩ := List.mem_iff_getElem?.1 hs
    exact h (s, i) (List.mem_zipIdx_iff_getElem?.2 hi) (by simpa using hn)
  · rintro h ⟨s, i⟩ hz hn
    exact h ⟨s, List.mem_of_getElem? (List.mem_zipIdx_iff_getElem?.1 hz), by simpa using hn⟩

/-- With distinct names the position of a name is that of the one step that has it. -/
theorem position?_of_getElem? (distinct : (steps.map Step.fullName).Nodup) {i : Nat} {s : Step}
    (h : steps[i]? = some s) : position? steps s.fullName = some i := by
  cases hp : position? steps s.fullName with
  | none => exact absurd ⟨s, List.mem_of_getElem? h, rfl⟩ (position?_eq_none.1 hp)
  | some j =>
    obtain ⟨t, ht, hn⟩ := mem_of_position? hp
    have hi : (steps.map Step.fullName)[i]? = some s.fullName := by rw [List.getElem?_map, h]; rfl
    have hj : (steps.map Step.fullName)[j]? = some s.fullName := by
      rw [List.getElem?_map, ht, ← hn]; rfl
    have hlt : j < (steps.map Step.fullName).length := (List.getElem?_eq_some_iff.1 hj).1
    rw [(List.getElem?_inj hlt distinct).1 (hj.trans hi.symm)]

/-- The report on a dependency that is not declared. -/
def undeclared? (steps : List Step) (s : Step) (target : String) : Option PlanError :=
  match position? steps target with
  | some _ => none
  | none => some (.unknownDependency s.fullName target)

theorem undeclared?_eq_none {s : Step} {target : String} :
    undeclared? steps s target = none ↔ Declared steps target := by
  unfold undeclared?
  cases hp : position? steps target with
  | none => simpa using position?_eq_none.1 hp
  | some i =>
    obtain ⟨t, ht, hn⟩ := mem_of_position? hp
    simpa using ⟨t, List.mem_of_getElem? ht, hn⟩

/-- The first report on a dependency of a step. -/
def undeclaredOf? (steps : List Step) (s : Step) : Option PlanError :=
  s.dependencies.steps.findSome? (undeclared? steps s)

/-- The first report on a dependency of any step. -/
def firstUndeclared? (steps : List Step) : Option PlanError :=
  steps.findSome? (undeclaredOf? steps)

/-- The edges to a step, where its dependencies are declared. -/
def declaredEdges (steps : List Step) (entry : Step × Nat) : List (Nat × Nat) :=
  entry.1.dependencies.steps.map fun target => ((position? steps target).getD 0, entry.2)

theorem edgesTo_eq (steps : List Step) (entry : Step × Nat) : edgesTo steps entry =
    (undeclaredOf? steps entry.1).elim (.ok (declaredEdges steps entry)) .error := by
  unfold edgesTo
  refine mapM_eq (fun target => ?_) _
  unfold undeclared?
  cases position? steps target <;> rfl

theorem graph_eq (steps : List Step) : graph steps = (firstUndeclared? steps).elim
    (.ok ⟨steps.length, steps.zipIdx.flatMap (declaredEdges steps)⟩) .error := by
  have hfirst : steps.zipIdx.findSome? (fun entry => undeclaredOf? steps entry.1) =
      firstUndeclared? steps := by
    have hm := List.findSome?_map (p := undeclaredOf? steps) (f := Prod.fst) (l := steps.zipIdx)
    rw [List.zipIdx_map_fst] at hm
    exact hm.symm
  unfold graph
  rw [mapM_eq (edgesTo_eq steps), hfirst]
  cases firstUndeclared? steps <;> rfl

theorem firstUndeclared?_eq_none : firstUndeclared? steps = none ↔ AllDeclared steps := by
  simp only [firstUndeclared?, undeclaredOf?, List.findSome?_eq_none_iff, undeclared?_eq_none,
    AllDeclared]

theorem firstUndeclared_of_eq_some {e : PlanError} (h : firstUndeclared? steps = some e) :
    ∃ s target, FirstUndeclared steps s target ∧ e = .unknownDependency s.fullName target := by
  obtain ⟨before, s, after, hsteps, hs, hbefore⟩ := List.findSome?_eq_some_iff.1 h
  obtain ⟨earlier, target, later, htargets, ht, hearlier⟩ := List.findSome?_eq_some_iff.1 hs
  refine ⟨s, target, ⟨before, after, earlier, later, hsteps, htargets, fun hd => ?_,
    fun t hm => undeclared?_eq_none.1 (hearlier t hm), fun u hu t hm => ?_⟩, ?_⟩
  · rw [undeclared?_eq_none.2 hd] at ht
    cases ht
  · exact undeclared?_eq_none.1 (List.findSome?_eq_none_iff.1 (hbefore u hu) t hm)
  · unfold undeclared? at ht
    split at ht
    · cases ht
    · exact (Option.some.inj ht).symm

/-- In the graph of a plan, a position depends on another as the steps wait for each other. -/
structure Represents (g : Graph) (steps : List Step) : Prop where
  size : g.size = steps.length
  dependsOn : ∀ i j, g.DependsOn i j ↔ ∃ s t, steps[i]? = some s ∧ steps[j]? = some t ∧
    t.fullName ∈ s.dependencies.steps

theorem represents_graph (distinct : (steps.map Step.fullName).Nodup)
    (declared : AllDeclared steps) :
    Represents ⟨steps.length, steps.zipIdx.flatMap (declaredEdges steps)⟩ steps := by
  refine ⟨rfl, fun i j => ?_⟩
  have edge : Graph.DependsOn ⟨steps.length, steps.zipIdx.flatMap (declaredEdges steps)⟩ i j ↔
      (j, i) ∈ steps.zipIdx.flatMap (declaredEdges steps) := by
    simp [Graph.DependsOn, Graph.dependencies]
  rw [edge, List.mem_flatMap]
  constructor
  · rintro ⟨⟨s, k⟩, hk, hm⟩
    obtain ⟨target, ht, he⟩ := List.mem_map.1 hm
    obtain ⟨hj, rfl⟩ := Prod.mk.inj he
    have hs := List.mem_zipIdx_iff_getElem?.1 hk
    cases hp : position? steps target with
    | none => exact absurd (declared s (List.mem_of_getElem? hs) target ht) (position?_eq_none.1 hp)
    | some l =>
      obtain ⟨t, hl, rfl⟩ := mem_of_position? hp
      rw [hp, Option.getD_some] at hj
      subst hj
      exact ⟨s, t, hs, hl, ht⟩
  · rintro ⟨s, t, hs, ht, hm⟩
    refine ⟨(s, i), List.mem_zipIdx_iff_getElem?.2 hs, List.mem_map.2 ⟨_, hm, ?_⟩⟩
    rw [position?_of_getElem? distinct ht, Option.getD_some]

namespace Represents
variable (h : Represents g steps) {i j : Nat} {s t : Step}
include h

theorem closed : g.Closed := by
  intro i j hij
  obtain ⟨s, t, hs, ht, -⟩ := (h.dependsOn i j).1 hij
  rw [h.size]
  exact ⟨(List.getElem?_eq_some_iff.1 hs).1, (List.getElem?_eq_some_iff.1 ht).1⟩

theorem hasChain_iff (hs : steps[i]? = some s) (n : Nat) :
    g.hasChain n i = true ↔ Chain steps s n := by
  induction n generalizing i s with
  | zero => exact ⟨fun _ => .here s, fun _ => rfl⟩
  | succ n ih =>
    rw [Graph.hasChain_succ]
    constructor
    · rintro ⟨j, hij, hj⟩
      obtain ⟨s', t, hs', ht, hm⟩ := (h.dependsOn i j).1 hij
      obtain rfl := Option.some.inj (hs.symm.trans hs')
      exact .down ⟨List.mem_of_getElem? hs, List.mem_of_getElem? ht, hm⟩ ((ih ht).1 hj)
    · intro hc
      cases hc with
      | down waits chain =>
        obtain ⟨-, ht, hm⟩ := waits
        obtain ⟨j, hj⟩ := List.mem_iff_getElem?.1 ht
        exact ⟨j, (h.dependsOn i j).2 ⟨_, _, hs, hj, hm⟩, (ih hj).2 chain⟩

theorem waits_of_transGen (hij : TransGen g.DependsOn i j) :
    ∃ s t, steps[i]? = some s ∧ steps[j]? = some t ∧ TransGen (Waits steps) s t := by
  have waits {i j : Nat} {s t : Step} (hs : steps[i]? = some s) (ht : steps[j]? = some t)
      (hm : t.fullName ∈ s.dependencies.steps) : Waits steps s t :=
    ⟨List.mem_of_getElem? hs, List.mem_of_getElem? ht, hm⟩
  induction hij with
  | single hd =>
    obtain ⟨s, t, hs, ht, hm⟩ := (h.dependsOn _ _).1 hd
    exact ⟨s, t, hs, ht, .single (waits hs ht hm)⟩
  | tail _ hd ih =>
    obtain ⟨s, t, hs, ht, hst⟩ := ih
    obtain ⟨t', u, ht', hu, hm⟩ := (h.dependsOn _ _).1 hd
    obtain rfl := Option.some.inj (ht.symm.trans ht')
    exact ⟨s, u, hs, hu, hst.tail (waits ht hu hm)⟩

theorem dependsOn_of_transGen (hst : TransGen (Waits steps) s t) (hs : steps[i]? = some s) :
    ∃ j, steps[j]? = some t ∧ TransGen g.DependsOn i j := by
  induction hst with
  | single hw =>
    obtain ⟨-, ht, hm⟩ := hw
    obtain ⟨j, hj⟩ := List.mem_iff_getElem?.1 ht
    exact ⟨j, hj, .single ((h.dependsOn i j).2 ⟨_, _, hs, hj, hm⟩)⟩
  | tail _ hw ih =>
    obtain ⟨j, hj, hij⟩ := ih
    obtain ⟨-, hu, hm⟩ := hw
    obtain ⟨k, hk⟩ := List.mem_iff_getElem?.1 hu
    exact ⟨k, hk, hij.tail ((h.dependsOn j k).2 ⟨_, _, hj, hk, hm⟩)⟩

theorem cyclic_iff (distinct : (steps.map Step.fullName).Nodup) :
    (∃ i, TransGen g.DependsOn i i) ↔ Cyclic steps := by
  constructor
  · rintro ⟨i, hi⟩
    obtain ⟨s, t, hs, ht, hst⟩ := h.waits_of_transGen hi
    obtain rfl := Option.some.inj (hs.symm.trans ht)
    exact ⟨s, hst⟩
  · rintro ⟨s, hs⟩
    obtain ⟨u, hu, -⟩ := TransGen.head'_iff.1 hs
    obtain ⟨i, hi⟩ := List.mem_iff_getElem?.1 hu.1
    obtain ⟨j, hj, hij⟩ := h.dependsOn_of_transGen hs hi
    have hpos := (position?_of_getElem? distinct hi).symm.trans (position?_of_getElem? distinct hj)
    obtain rfl := Option.some.inj hpos
    exact ⟨i, hij⟩

end Represents

section
variable {α : Type} {as : List (α × Nat)} {ws : List (List α)}

/-- What each wave is after elements have been put into their waves. -/
theorem getElem?_foldl_modify (as : List (α × Nat)) (ws : List (List α)) (k : Nat) :
    (as.foldl (fun ws (a, d) => ws.modify d (· ++ [a])) ws)[k]? =
      ws[k]?.map (· ++ (as.filter (·.2 == k)).map Prod.fst) := by
  induction as generalizing ws with
  | nil => simp
  | cons a as ih =>
    rw [List.foldl_cons, ih, List.getElem?_modify]
    by_cases h : a.2 = k
    · simp [h, Function.comp_def]
    · simp [h]

theorem perm_flatten_modify {a : α} {d : Nat} (inside : d < ws.length) :
    (ws.modify d (· ++ [a])).flatten.Perm (ws.flatten ++ [a]) := by
  induction ws generalizing d with
  | nil => cases inside
  | cons w ws ih =>
    cases d with
    | zero =>
      rw [List.modify_zero_cons, List.flatten_cons, List.flatten_cons, List.append_assoc,
        List.append_assoc]
      exact List.perm_append_comm.append_left w
    | succ d =>
      rw [List.modify_succ_cons, List.flatten_cons, List.flatten_cons, List.append_assoc]
      exact (ih (Nat.lt_of_succ_lt_succ inside)).append_left w

theorem perm_flatten_foldl_modify (inside : ∀ a ∈ as, a.2 < ws.length) :
    (as.foldl (fun ws (a, d) => ws.modify d (· ++ [a])) ws).flatten.Perm
      (ws.flatten ++ as.map Prod.fst) := by
  induction as generalizing ws with
  | nil => simp
  | cons a as ih =>
    obtain ⟨here, inside⟩ := List.forall_mem_cons.1 inside
    refine (ih (by simpa using inside)).trans (((perm_flatten_modify here).append_right _).trans ?_)
    rw [List.append_assoc, List.map_cons]
    rfl

end

/-- The steps of a depth. -/
def wave (steps : List Step) (depths : List Nat) (k : Nat) : List Step :=
  ((steps.zip depths).filter (·.2 == k)).map Prod.fst

section
variable {depths : List Nat} {k : Nat}

theorem getElem?_intoWaves {w : List Step} (h : (intoWaves steps depths)[k]? = some w) :
    k ≤ depths.max?.getD 0 ∧ w = wave steps depths k := by
  rw [intoWaves, getElem?_foldl_modify, List.getElem?_replicate] at h
  split at h
  · exact ⟨Nat.le_of_lt_succ ‹_›, (Option.some.inj h).symm⟩
  · cases h

theorem mem_wave {s : Step} :
    s ∈ wave steps depths k ↔ ∃ i : Nat, steps[i]? = some s ∧ depths[i]? = some k := by
  constructor
  · intro hs
    obtain ⟨⟨t, d⟩, ht, rfl⟩ := List.mem_map.1 hs
    obtain ⟨hz, hd⟩ := List.mem_filter.1 ht
    obtain rfl := beq_iff_eq.1 hd
    obtain ⟨i, hi⟩ := List.mem_iff_getElem?.1 hz
    exact ⟨i, List.getElem?_zip_eq_some.1 hi⟩
  · rintro ⟨i, hs, hk⟩
    have hz : (s, k) ∈ steps.zip depths :=
      List.mem_of_getElem? (List.getElem?_zip_eq_some.2 ⟨hs, hk⟩)
    exact List.mem_map.2 ⟨_, List.mem_filter.2 ⟨hz, beq_self_eq_true k⟩, rfl⟩

theorem perm_intoWaves (measured : depths.length = steps.length) :
    (intoWaves steps depths).flatten.Perm steps := by
  have inside : ∀ entry ∈ steps.zip depths,
      entry.2 < (List.replicate (depths.max?.getD 0 + 1) ([] : List Step)).length := by
    intro entry he
    rw [List.length_replicate]
    exact Nat.lt_succ_of_le (List.le_max?_getD_of_mem (List.of_mem_zip he).2)
  have perm := perm_flatten_foldl_modify inside
  rw [List.map_fst_zip (Nat.le_of_eq measured.symm)] at perm
  simpa [intoWaves] using perm

theorem sublist_wave (measured : depths.length = steps.length) :
    (wave steps depths k).Sublist steps := by
  have sub : ((steps.zip depths).filter (·.2 == k)).Sublist (steps.zip depths) :=
    List.filter_sublist
  have mapped := sub.map Prod.fst
  rwa [List.map_fst_zip (Nat.le_of_eq measured.symm)] at mapped

end

/-- Depths along an order put the steps into the waves of a plan. -/
theorem isPlan_intoWaves (h : Represents g steps) {order : List Nat} (ordered : g.Topological order)
    (nonempty : steps ≠ []) : IsPlan steps (intoWaves steps (g.depths order)) := by
  have measured : (g.depths order).length = steps.length := (Graph.length_depths order).trans h.size
  refine ⟨perm_intoWaves measured, fun w hw => ?_, fun w hw => ?_, fun k w hk s hs n => ?_⟩
  · obtain ⟨k, hk⟩ := List.mem_iff_getElem?.1 hw
    obtain ⟨hle, rfl⟩ := getElem?_intoWaves hk
    obtain ⟨i, hi, deep⟩ := ordered.exists_depth_of_le h.closed
      (h.size ▸ List.length_pos_of_ne_nil nonempty) hle
    have known : steps[i]? = some (steps.get ⟨i, h.size ▸ hi⟩) := List.getElem?_eq_getElem _
    exact List.ne_nil_of_mem (mem_wave.2 ⟨i, known, deep⟩)
  · obtain ⟨k, hk⟩ := List.mem_iff_getElem?.1 hw
    rw [(getElem?_intoWaves hk).2]
    exact sublist_wave measured
  · rw [(getElem?_intoWaves hk).2] at hs
    obtain ⟨i, hi, hd⟩ := mem_wave.1 hs
    have inside : i < g.size := h.size.symm ▸ (List.getElem?_eq_some_iff.1 hi).1
    rw [← h.hasChain_iff hi]
    exact (ordered.getElem?_depths inside).1 hd n

/-- In a plan every dependency of a step lies in an earlier wave. -/
theorem IsPlan.earlier {waves : List (List Step)} (h : IsPlan steps waves) {k : Nat}
    {w : List Step} (hk : waves[k]? = some w) {s t : Step} (hs : s ∈ w) (hst : Waits steps s t) :
    ∃ j w', waves[j]? = some w' ∧ t ∈ w' ∧ j < k := by
  obtain ⟨w', hm, ht⟩ := List.mem_flatten.1 (h.perm.mem_iff.2 hst.2.1)
  obtain ⟨j, hj⟩ := List.mem_iff_getElem?.1 hm
  exact ⟨j, w', hj, ht, (h.longest k w hk s hs _).1
    (.down hst ((h.longest j w' hj t ht j).2 (Nat.le_refl j)))⟩

theorem waves_of_undeclared {e : PlanError} (h : firstUndeclared? steps = some e) :
    waves steps = .error e := by
  have nonempty : steps.isEmpty = false := by
    cases steps with
    | nil => cases h
    | cons s steps => rfl
  rw [waves, nonempty, graph_eq, h]
  rfl

/-- With all dependencies declared there is a plan, or a step on a cycle is named. -/
theorem waves_of_declared (distinct : (steps.map Step.fullName).Nodup)
    (declared : AllDeclared steps) :
    (¬Cyclic steps ∧ ∃ ws, waves steps = .ok ws ∧ IsPlan steps ws) ∨
      Cyclic steps ∧ ∃ s, TransGen (Waits steps) s s ∧
        waves steps = .error (.cycle s.fullName) := by
  by_cases empty : steps = []
  · subst empty
    refine .inl ⟨fun ⟨s, hs⟩ => ?_, [], rfl, .refl _, by simp, by simp, by simp⟩
    obtain ⟨t, ⟨hm, -⟩, -⟩ := TransGen.head'_iff.1 hs
    cases hm
  have h := represents_graph distinct declared
  have nonempty : steps.isEmpty = false := by simpa using empty
  rw [waves, nonempty, graph_eq, firstUndeclared?_eq_none.2 declared]
  dsimp only [Option.elim, bind, Except.bind]
  rcases Graph.order_spec h.closed with ⟨order, found, ordered⟩ | ⟨i, found, cycle⟩
  · rw [found]
    refine .inl ⟨fun cyclic => ?_, _, rfl, isPlan_intoWaves h ordered empty⟩
    obtain ⟨i, hi⟩ := (h.cyclic_iff distinct).2 cyclic
    exact ordered.acyclic h.closed i hi
  · rw [found]
    obtain ⟨s, t, hs, ht, hst⟩ := h.waits_of_transGen cycle
    obtain rfl := Option.some.inj (hs.symm.trans ht)
    refine .inr ⟨⟨s, hst⟩, s, hst, ?_⟩
    simp [nameAt, hs]

/-- A decoded pipeline tells its steps apart by their names. Where they are told apart, a pipeline has
a plan exactly when its dependencies are declared and without a cycle. A missing declaration is
reported before a cycle, and the step named in a cycle lies on one. -/
theorem plan_correct (p : Pipeline) :
    (∀ b ctx, Pipeline.ofBlock b ctx = .ok p → p.Distinct) ∧
    (p.Distinct →
      ((∃ waves, p.plan = .ok waves) ↔ AllDeclared p.steps ∧ ¬Cyclic p.steps) ∧
      (∀ waves, p.plan = .ok waves → IsPlan p.steps waves) ∧
      (¬AllDeclared p.steps → ∃ s target, FirstUndeclared p.steps s target ∧
        p.plan = .error (.unknownDependency s.fullName target)) ∧
      (AllDeclared p.steps → Cyclic p.steps → ∃ s, TransGen (Waits p.steps) s s ∧
        p.plan = .error (.cycle s.fullName))) := by
  refine ⟨fun _ _ => Pipeline.distinct_ofBlock, fun distinct => ?_⟩
  have undeclared (hn : ¬AllDeclared p.steps) : ∃ s target, FirstUndeclared p.steps s target ∧
      p.plan = .error (.unknownDependency s.fullName target) := by
    cases hf : firstUndeclared? p.steps with
    | none => exact absurd (firstUndeclared?_eq_none.1 hf) hn
    | some e =>
      obtain ⟨s, target, hst, rfl⟩ := firstUndeclared_of_eq_some hf
      exact ⟨s, target, hst, waves_of_undeclared hf⟩
  have declared_of_ok {waves : List (List Step)} (hw : p.plan = .ok waves) :
      AllDeclared p.steps := by
    by_contra hn
    obtain ⟨s, target, -, he⟩ := undeclared hn
    cases hw.symm.trans he
  refine ⟨⟨?_, ?_⟩, ?_, undeclared, ?_⟩
  · rintro ⟨waves, hw⟩
    refine ⟨declared_of_ok hw, fun hc => ?_⟩
    rcases waves_of_declared distinct (declared_of_ok hw) with ⟨hn, -⟩ | ⟨-, s, -, he⟩
    · exact hn hc
    · cases hw.symm.trans he
  · rintro ⟨hd, hn⟩
    rcases waves_of_declared distinct hd with ⟨-, waves, hw, -⟩ | ⟨hc, -⟩
    · exact ⟨waves, hw⟩
    · exact absurd hc hn
  · intro waves hw
    rcases waves_of_declared distinct (declared_of_ok hw) with ⟨-, ws, hws, hp⟩ | ⟨-, s, -, he⟩
    · cases hw.symm.trans hws
      exact hp
    · cases hw.symm.trans he
  · intro hd hc
    rcases waves_of_declared distinct hd with ⟨hn, -⟩ | ⟨-, h⟩
    · exact absurd hc hn
    · exact h

/-- A step of a pipeline that waits for the given targets. -/
def sleepStep (name : String) (targets : List String) : Step :=
  { Step.ofKind .sleep name "p" with dependencies := ⟨targets, []⟩ }

/-- Two steps, of which the one that is declared first waits for the other. -/
def sleepTwice : Pipeline :=
  { Pipeline.ofName "p" with steps := [sleepStep "b" ["sleep.a"], sleepStep "a" []] }

/-- The steps run in the opposite order of their declaration. -/
theorem plan_correct_sleepTwice :
    IsPlan sleepTwice.steps [[sleepStep "a" []], [sleepStep "b" ["sleep.a"]]] :=
  ((plan_correct sleepTwice).2 (by decide)).2.1 _ (by with_unfolding_all rfl)

end PipelineResolution.Plan
