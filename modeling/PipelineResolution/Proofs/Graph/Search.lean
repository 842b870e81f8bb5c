import Mathlib.Data.Finset.Card
import Mathlib.Data.Finset.Range
import Mathlib.Logic.Relation
import PipelineResolution.Graph

/-!
# Orders by depth-first search

A depth-first search finishes a node after all that wait for it, except those it has not yet
returned from, and these are what the node itself waits for. So a dependency that comes late in the
order of finishing lies on a cycle, and where none comes late no node waits for a later one.
-/
namespace PipelineResolution.Graph
open Relation
variable {g : Graph} {s t : Search} {i j : Nat}

def DependsOn (g : Graph) (i j : Nat) : Prop := j ∈ g.dependencies i

/-- All edges join nodes of the graph. -/
def Closed (g : Graph) : Prop := ∀ i j, g.DependsOn i j → i < g.size ∧ j < g.size

theorem mem_dependents : j ∈ g.dependents i ↔ g.DependsOn j i := by
  simp [dependents, DependsOn, dependencies]

/-- In a list of nodes, last finished first, what waits for a node has finished before it or lies
above it. -/
def Settled (g : Graph) : List Nat → Prop
  | [] => True
  | j :: done =>
    (∀ i, g.DependsOn i j → i ∈ done ∨ ReflTransGen g.DependsOn j i) ∧ Settled g done

/-- A node that the search has entered but not left. -/
def Search.Active (s : Search) (i : Nat) : Prop := i ∈ s.discovered ∧ i ∉ s.finished

structure Search.Good (g : Graph) (s : Search) : Prop where
  nodup : s.finished.Nodup
  inside : ∀ i ∈ s.discovered, i < g.size
  discovered : ∀ i ∈ s.finished, i ∈ s.discovered
  settled : g.Settled s.finished

/-- What a search leaves as it was. -/
structure Search.Extends (s t : Search) : Prop where
  discovered : ∀ i ∈ s.discovered, i ∈ t.discovered
  active : ∀ i, t.Active i ↔ s.Active i

theorem Search.extends_refl (s : Search) : s.Extends s := ⟨fun _ hi => hi, fun _ => Iff.rfl⟩

theorem Search.Extends.trans {u : Search} (h : s.Extends t) (h' : t.Extends u) : s.Extends u :=
  ⟨fun i hi => h'.discovered i (h.discovered i hi), fun i => (h'.active i).trans (h.active i)⟩

theorem Search.active_enter (hf : i ∉ s.finished) (a : Nat) :
    Active { s with discovered := i :: s.discovered } a ↔ a = i ∨ s.Active a := by
  simp only [Active, List.mem_cons]
  constructor
  · rintro ⟨rfl | h, hn⟩
    · exact .inl rfl
    · exact .inr ⟨h, hn⟩
  · rintro (rfl | ⟨h, hn⟩)
    · exact ⟨.inl rfl, hf⟩
    · exact ⟨.inr h, hn⟩

theorem Search.active_leave (s : Search) (i a : Nat) :
    Active { s with finished := i :: s.finished } a ↔ a ≠ i ∧ s.Active a := by
  simp only [Active, List.mem_cons, not_or]
  exact and_left_comm

/-- The number of nodes that have not been entered. -/
def Search.undiscovered (g : Graph) (s : Search) : Nat :=
  ((Finset.range g.size).filter (· ∉ s.discovered)).card

theorem Search.undiscovered_le (h : s.Extends t) : t.undiscovered g ≤ s.undiscovered g :=
  Finset.card_le_card (Finset.monotone_filter_right _ fun i _ hi hs => hi (h.discovered i hs))

theorem Search.undiscovered_cons (hi : i < g.size) (hn : i ∉ s.discovered) :
    undiscovered g { s with discovered := i :: s.discovered } < s.undiscovered g := by
  apply Finset.card_lt_card
  refine (Finset.ssubset_iff_of_subset fun j hj => ?_).2 ⟨i, ?_, ?_⟩
  · rw [Finset.mem_filter] at hj ⊢
    exact ⟨hj.1, fun hs => hj.2 (List.mem_cons_of_mem i hs)⟩
  · exact Finset.mem_filter.2 ⟨Finset.mem_range.2 hi, hn⟩
  · exact fun hm => (Finset.mem_filter.1 hm).2 List.mem_cons_self

/-- What a visit with enough fuel does. -/
def VisitSpec (g : Graph) (fuel : Nat) : Prop :=
  ∀ (s : Search) (i : Nat), s.Good g → i < g.size → s.undiscovered g < fuel →
    (∀ a, s.Active a → ReflTransGen g.DependsOn i a) →
    (g.visit fuel s i).Good g ∧ s.Extends (g.visit fuel s i) ∧ i ∈ (g.visit fuel s i).discovered

theorem foldl_visit {fuel : Nat} (spec : g.VisitSpec fuel) (nodes : List Nat) (s : Search)
    (good : s.Good g) (inside : ∀ i ∈ nodes, i < g.size) (enough : s.undiscovered g < fuel)
    (above : ∀ i ∈ nodes, ∀ a, s.Active a → ReflTransGen g.DependsOn i a) :
    (nodes.foldl (g.visit fuel) s).Good g ∧ s.Extends (nodes.foldl (g.visit fuel) s) ∧
      ∀ i ∈ nodes, i ∈ (nodes.foldl (g.visit fuel) s).discovered := by
  induction nodes generalizing s with
  | nil => exact ⟨good, s.extends_refl, fun _ hi => nomatch hi⟩
  | cons i nodes ih =>
    obtain ⟨hi, inside⟩ := List.forall_mem_cons.1 inside
    obtain ⟨ha, above⟩ := List.forall_mem_cons.1 above
    obtain ⟨good', ext, hd⟩ := spec s i good hi enough ha
    obtain ⟨good'', ext', hds⟩ := ih _ good' inside
      (Nat.lt_of_le_of_lt (Search.undiscovered_le ext) enough)
      fun j hj a hact => above j hj a ((ext.active a).1 hact)
    exact ⟨good'', ext.trans ext', List.forall_mem_cons.2 ⟨ext'.discovered i hd, hds⟩⟩

theorem visit_spec (closed : g.Closed) (fuel : Nat) : g.VisitSpec fuel := by
  induction fuel with
  | zero => exact fun s i _ _ enough => absurd enough (Nat.not_lt_zero _)
  | succ fuel ih =>
    intro s i good hi enough above
    unfold visit
    by_cases hd : i ∈ s.discovered
    · rw [if_pos (List.contains_iff_mem.2 hd)]
      exact ⟨good, s.extends_refl, hd⟩
    rw [if_neg fun hc => hd (List.contains_iff_mem.1 hc)]
    let entered : Search := { s with discovered := i :: s.discovered }
    have hf : i ∉ s.finished := fun hf => hd (good.discovered i hf)
    have hactive (a : Nat) : entered.Active a ↔ a = i ∨ s.Active a := Search.active_enter hf a
    have hgood : entered.Good g :=
      ⟨good.nodup, List.forall_mem_cons.2 ⟨hi, good.inside⟩,
        fun j hj => List.mem_cons_of_mem i (good.discovered j hj), good.settled⟩
    obtain ⟨good', ext, hds⟩ := foldl_visit ih (g.dependents i) entered hgood
      (fun j hj => (closed j i (mem_dependents.1 hj)).1)
      ((Search.undiscovered_cons hi hd).trans_le (Nat.le_of_lt_succ enough))
      (fun j hj a hact => by
        have hji : ReflTransGen g.DependsOn j i := .single (mem_dependents.1 hj)
        rcases (hactive a).1 hact with rfl | hact
        · exact hji
        · exact hji.trans (above a hact))
    generalize hleft : (g.dependents i).foldl (g.visit fuel) entered = left at good' ext hds ⊢
    have hi' : left.Active i := (ext.active i).2 ((hactive i).2 (.inl rfl))
    refine ⟨⟨List.nodup_cons.2 ⟨hi'.2, good'.nodup⟩, good'.inside, ?_, ?_, good'.settled⟩,
      ⟨?_, ?_⟩, ?_⟩
    · exact List.forall_mem_cons.2 ⟨hi'.1, good'.discovered⟩
    · intro j hj
      have hjd := hds j (mem_dependents.2 hj)
      by_cases hjf : j ∈ left.finished
      · exact .inl hjf
      · -- A node that is still active when `i` is left lies above `i`, or is `i`.
        right
        rcases (hactive j).1 ((ext.active j).1 ⟨hjd, hjf⟩) with rfl | hact
        · exact .refl
        · exact above j hact
    · exact fun j hj => ext.discovered j (List.mem_cons_of_mem i hj)
    · intro a
      rw [Search.active_leave, ext.active, hactive]
      constructor
      · exact fun ⟨hne, ha⟩ => ha.resolve_left hne
      · exact fun ha => ⟨fun he => hd (he ▸ ha.1), .inr ha⟩
    · exact hi'.1

/-- At the end all nodes have been left. -/
theorem search_spec (closed : g.Closed) : g.search.Good g ∧ ∀ i, i < g.size →
    i ∈ g.search.discovered ∧ i ∈ g.search.finished := by
  have none (a : Nat) : ¬Search.Active ⟨[], []⟩ a := fun h => nomatch h.1
  have enough : Search.undiscovered g ⟨[], []⟩ < g.size + 1 := by
    refine Nat.lt_succ_of_le ((Finset.card_filter_le _ _).trans ?_)
    rw [Finset.card_range]
  obtain ⟨good, ext, hds⟩ := foldl_visit (visit_spec closed (g.size + 1)) (List.range g.size)
    ⟨[], []⟩ ⟨.nil, (fun _ hi => nomatch hi), (fun _ hi => nomatch hi), trivial⟩
    (fun i hi => List.mem_range.1 hi) enough fun _ _ a ha => absurd ha (none a)
  refine ⟨good, fun i hi => ?_⟩
  have hd := hds i (List.mem_range.2 hi)
  refine ⟨hd, ?_⟩
  by_contra hf
  exact none i ((ext.active i).1 ⟨hd, hf⟩)

/-- Either a node has a late dependency, or the search for one goes on. -/
theorem lateDependency?_cons (seen rest : List Nat) (i : Nat) :
    (∃ j, g.lateDependency? seen (i :: rest) = some j ∧ g.DependsOn i j ∧ j ∉ i :: seen) ∨
      g.lateDependency? seen (i :: rest) = g.lateDependency? (i :: seen) rest ∧
        ∀ j, g.DependsOn i j → j ∈ i :: seen := by
  rw [lateDependency?]
  cases hf : (g.dependencies i).find? (!(i :: seen).contains ·) with
  | some j =>
    have hj := List.find?_some hf
    rw [Bool.not_eq_true', ← Bool.not_eq_true, List.contains_iff_mem] at hj
    exact .inl ⟨j, rfl, List.mem_of_find?_eq_some hf, hj⟩
  | none =>
    refine .inr ⟨rfl, fun j hj => ?_⟩
    have hn := List.find?_eq_none.1 hf j hj
    rwa [Bool.not_eq_true', Bool.not_eq_false, List.contains_iff_mem] at hn

theorem lateDependency?_eq_some {seen rest : List Nat} (h : g.lateDependency? seen rest = some j) :
    j ∉ seen ∧ ∃ before i after, rest = before ++ i :: after ∧ g.DependsOn i j ∧ j ∉ before ∧
      j ≠ i := by
  induction rest generalizing seen with
  | nil => cases h
  | cons i rest ih =>
    rcases lateDependency?_cons seen rest i with ⟨k, hk, hd, hn⟩ | ⟨hrest, -⟩
    · obtain rfl := Option.some.inj (h.symm.trans hk)
      exact ⟨List.not_mem_of_not_mem_cons hn, [], i, rest, rfl, hd, List.not_mem_nil,
        List.ne_of_not_mem_cons hn⟩
    · obtain ⟨hs, before, k, after, rfl, hk, hb, hne⟩ := ih (hrest ▸ h)
      exact ⟨List.not_mem_of_not_mem_cons hs, i :: before, k, after, rfl, hk,
        List.not_mem_cons_of_ne_of_not_mem (List.ne_of_not_mem_cons hs) hb, hne⟩

theorem dependency_of_lateDependency?_eq_none {seen before after : List Nat}
    (h : g.lateDependency? seen (before ++ i :: after) = none) (hj : g.DependsOn i j) :
    j ∈ seen ∨ j ∈ before ∨ j = i := by
  induction before generalizing seen with
  | nil =>
    rcases lateDependency?_cons seen after i with ⟨k, hk, -⟩ | ⟨-, hall⟩
    · cases h.symm.trans hk
    · rcases List.mem_cons.1 (hall j hj) with rfl | hs
      · exact .inr (.inr rfl)
      · exact .inl hs
  | cons k before ih =>
    rcases lateDependency?_cons seen (before ++ i :: after) k with ⟨l, hl, -⟩ | ⟨hrest, -⟩
    · cases h.symm.trans hl
    · rcases ih (hrest ▸ h) with hm | hm | rfl
      · rcases List.mem_cons.1 hm with rfl | hm
        · exact .inr (.inl List.mem_cons_self)
        · exact .inl hm
      · exact .inr (.inl (List.mem_cons_of_mem k hm))
      · exact .inr (.inr rfl)

theorem Settled.split {before after : List Nat} (h : g.Settled (before ++ j :: after)) :
    ∀ i, g.DependsOn i j → i ∈ after ∨ ReflTransGen g.DependsOn j i := by
  induction before with
  | nil => exact h.1
  | cons k before ih => exact ih h.2

theorem cycle_of_lateDependency? (closed : g.Closed)
    (h : g.lateDependency? [] g.search.finished = some j) : TransGen g.DependsOn j j := by
  obtain ⟨good, all⟩ := search_spec closed
  obtain ⟨-, before, i, after, hsplit, hij, hb, hne⟩ := lateDependency?_eq_some h
  have hj : j ∈ after := by
    have hm := (all j (closed i j hij).2).2
    rw [hsplit] at hm
    exact ((List.mem_append.1 hm).resolve_left hb |> List.mem_cons.1).resolve_left hne
  obtain ⟨between, last, rfl⟩ := List.append_of_mem hj
  have hsplit' : g.search.finished = (before ++ i :: between) ++ j :: last := by
    rw [hsplit, List.append_assoc, List.cons_append]
  have settled := good.settled
  have nodup := good.nodup
  rw [hsplit'] at settled nodup
  rcases settled.split i hij with hi | hi
  · -- No node is finished twice.
    refine absurd rfl ((List.nodup_append.1 nodup).2.2 i ?_ i (List.mem_cons_of_mem j hi))
    exact List.mem_append_right before List.mem_cons_self
  · exact .tail' hi hij

/-- All nodes, each once and after those that it waits for. -/
structure Topological (g : Graph) (order : List Nat) : Prop where
  nodup : order.Nodup
  mem_iff : ∀ i, i ∈ order ↔ i < g.size
  earlier : ∀ before i after, order = before ++ i :: after → ∀ j, g.DependsOn i j → j ∈ before

theorem Topological.acyclic {order : List Nat} (closed : g.Closed) (h : g.Topological order)
    (i : Nat) : ¬TransGen g.DependsOn i i := by
  have before {i j : Nat} (hij : g.DependsOn i j) : order.idxOf j < order.idxOf i := by
    obtain ⟨before, after, hsplit⟩ := List.append_of_mem ((h.mem_iff i).2 (closed i j hij).1)
    have hj := h.earlier before i after hsplit j hij
    have nodup := h.nodup
    rw [hsplit] at nodup ⊢
    have hi : i ∉ before := fun hi =>
      (List.nodup_append.1 nodup).2.2 i hi i List.mem_cons_self rfl
    rw [List.idxOf_append_of_mem hj, List.idxOf_append_of_notMem hi]
    exact (List.idxOf_lt_length_of_mem hj).trans_le (Nat.le_add_right _ _)
  have decreases {i j : Nat} (hij : TransGen g.DependsOn i j) : order.idxOf j < order.idxOf i := by
    induction hij with
    | single h => exact before h
    | tail _ h ih => exact (before h).trans ih
  exact fun h => Nat.lt_irrefl _ (decreases h)

/-- Either a node that waits for itself is found, or there is none and a late dependency counts. -/
theorem cycleMember?_cases (g : Graph) :
    (∃ i, g.cycleMember? = some i ∧ g.DependsOn i i) ∨
      g.cycleMember? = g.lateDependency? [] g.search.finished ∧
        ∀ i ∈ g.search.discovered, ¬g.DependsOn i i := by
  rw [cycleMember?]
  cases hself : g.search.discovered.reverse.find? (fun i => (g.dependencies i).contains i) with
  | some i =>
    have hi : (g.dependencies i).contains i = true := by simpa using List.find?_some hself
    exact .inl ⟨i, rfl, List.contains_iff_mem.1 hi⟩
  | none =>
    refine .inr ⟨rfl, fun i hi hii => ?_⟩
    exact List.find?_eq_none.1 hself i (List.mem_reverse.2 hi) (List.contains_iff_mem.2 hii)

theorem cycle_of_cycleMember? (closed : g.Closed) (h : g.cycleMember? = some j) :
    TransGen g.DependsOn j j := by
  rcases g.cycleMember?_cases with ⟨i, hi, hii⟩ | ⟨hlate, -⟩
  · obtain rfl := Option.some.inj (hi.symm.trans h)
    exact .single hii
  · exact cycle_of_lateDependency? closed (hlate ▸ h)

/-- A search that finds no node of a cycle has put the nodes in order. -/
theorem topological_of_cycleMember? (closed : g.Closed) (h : g.cycleMember? = none) :
    g.Topological g.search.finished := by
  obtain ⟨good, all⟩ := search_spec closed
  rcases g.cycleMember?_cases with ⟨i, hi, -⟩ | ⟨hlate, hself⟩
  · cases hi.symm.trans h
  · refine ⟨good.nodup, fun i => ⟨fun hi => good.inside i (good.discovered i hi),
      fun hi => (all i hi).2⟩, fun before i after hsplit j hij => ?_⟩
    rw [h, hsplit] at hlate
    rcases dependency_of_lateDependency?_eq_none hlate.symm hij with hm | hm | rfl
    · cases hm
    · exact hm
    · -- A node that waits for itself would have been found first.
      exact absurd hij (hself j (all j (closed j j hij).1).1)

/-- The nodes are put in order, or the node that is named lies on a cycle. -/
theorem order_spec (closed : g.Closed) :
    (∃ order, g.order = .ok order ∧ g.Topological order) ∨
      ∃ i, g.order = .error i ∧ TransGen g.DependsOn i i := by
  unfold order
  cases found : g.cycleMember? with
  | none => exact .inl ⟨_, rfl, topological_of_cycleMember? closed found⟩
  | some i => exact .inr ⟨i, rfl, cycle_of_cycleMember? closed found⟩

end PipelineResolution.Graph
