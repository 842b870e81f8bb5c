import Mathlib.Data.List.Induction
import PipelineResolution.Proofs.Graph.Search

/-!
# Depths are lengths of longest chains

In an order in which none waits for a later one, a node finds the depths of all that it waits for. So
one pass gives each node the length of the longest chain of dependencies below it.
-/
namespace PipelineResolution.Graph
variable {g : Graph} {i j d d' m n : Nat} {depths order : List Nat}

/-- Whether a chain of `n` dependencies hangs below a node. -/
def hasChain (g : Graph) : Nat → Nat → Bool
  | 0, _ => true
  | n + 1, i => (g.dependencies i).any (g.hasChain n)

theorem hasChain_succ : g.hasChain (n + 1) i = true ↔ ∃ j, g.DependsOn i j ∧ g.hasChain n j = true := by
  simp only [hasChain, List.any_eq_true, DependsOn]

theorem hasChain_of_succ (h : g.hasChain (n + 1) i = true) : g.hasChain n i = true := by
  induction n generalizing i with
  | zero => rfl
  | succ n ih =>
    obtain ⟨j, hj, hc⟩ := hasChain_succ.1 h
    exact hasChain_succ.2 ⟨j, hj, ih hc⟩

theorem hasChain_of_le (hmn : m ≤ n) (h : g.hasChain n i = true) : g.hasChain m i = true := by
  induction hmn with
  | refl => exact h
  | step _ ih => exact ih (hasChain_of_succ h)

/-- The longest chain below a node has `d` dependencies. -/
def IsDepth (g : Graph) (i d : Nat) : Prop := ∀ n, g.hasChain n i = true ↔ n ≤ d

theorem IsDepth.unique (h : g.IsDepth i d) (h' : g.IsDepth i d') : d = d' :=
  Nat.le_antisymm ((h' d).1 ((h d).2 (Nat.le_refl d))) ((h d').1 ((h' d').2 (Nat.le_refl d')))

/-- Down the longest chain below a node there is a node of every smaller depth. -/
theorem IsDepth.exists_of_le (h : g.IsDepth i m) (hi : i < g.size) (closed : g.Closed)
    (hle : d ≤ m) : ∃ j, j < g.size ∧ g.IsDepth j d := by
  induction m generalizing i with
  | zero =>
    obtain rfl := Nat.le_zero.1 hle
    exact ⟨i, hi, h⟩
  | succ m ih =>
    rcases Nat.lt_or_eq_of_le hle with hlt | rfl
    · obtain ⟨j, hij, hj⟩ := hasChain_succ.1 ((h (m + 1)).2 (Nat.le_refl _))
      have deep : g.IsDepth j m := fun n =>
        ⟨fun hn => Nat.le_of_succ_le_succ ((h (n + 1)).1 (hasChain_succ.2 ⟨j, hij, hn⟩)),
          fun hn => hasChain_of_le hn hj⟩
      exact ih deep (closed i j hij).2 (Nat.le_of_lt_succ hlt)
    · exact ⟨i, hi, h⟩

theorem lt_max?_getD {l : List Nat} : n < l.max?.getD 0 ↔ ∃ d ∈ l, n < d := by
  constructor
  · intro h
    cases found : l.max? with
    | none =>
      rw [found] at h
      cases h
    | some d =>
      rw [found] at h
      exact ⟨d, List.max?_mem found, h⟩
  · rintro ⟨d, hd, h⟩
    exact h.trans_le (List.le_max?_getD_of_mem hd)

/-- A node finds its depth by the depths of what it waits for. -/
theorem isDepth_depth (h : ∀ j, g.DependsOn i j → g.IsDepth j (depths.getD j 0)) :
    g.IsDepth i (g.depth depths i) := by
  intro n
  cases n with
  | zero => exact iff_of_true rfl (Nat.zero_le _)
  | succ n =>
    rw [hasChain_succ, Nat.succ_le_iff, depth, lt_max?_getD]
    constructor
    · rintro ⟨j, hij, hj⟩
      exact ⟨_, List.mem_map_of_mem hij, Nat.lt_succ_of_le ((h j hij n).1 hj)⟩
    · rintro ⟨_, hd, hn⟩
      obtain ⟨j, hij, rfl⟩ := List.mem_map.1 hd
      exact ⟨j, hij, (h j hij n).2 (Nat.le_of_lt_succ hn)⟩

theorem length_depths (order : List Nat) : (g.depths order).length = g.size := by
  induction order using List.reverseRecOn with
  | nil => exact List.length_replicate
  | append_singleton order i ih =>
    rw [depths, List.foldl_append]
    exact List.length_set.trans ih

/-- Along an order the depths found so far are right. -/
theorem isDepth_depths (nodup : order.Nodup) (inside : ∀ i ∈ order, i < g.size)
    (earlier : ∀ before i after, order = before ++ i :: after → ∀ j, g.DependsOn i j → j ∈ before) :
    ∀ i ∈ order, g.IsDepth i ((g.depths order).getD i 0) := by
  induction order using List.reverseRecOn with
  | nil => exact fun _ hi => nomatch hi
  | append_singleton order i ih =>
    obtain ⟨nodup, -, apart⟩ := List.nodup_append.1 nodup
    have found := ih nodup (fun j hj => inside j (List.mem_append_left _ hj))
      fun before j after hsplit => earlier before j (after ++ [i]) (by rw [hsplit]; simp)
    have last : g.depths (order ++ [i]) =
        (g.depths order).set i (g.depth (g.depths order) i) := by
      rw [depths, List.foldl_append]
      rfl
    intro j hj
    rw [last, List.getD_eq_getElem?_getD, List.getElem?_set, length_depths]
    rcases List.mem_append.1 hj with hj | hj
    · rw [if_neg fun same => apart j hj i List.mem_cons_self same.symm,
        ← List.getD_eq_getElem?_getD]
      exact found j hj
    · obtain rfl := List.mem_singleton.1 hj
      rw [if_pos rfl, if_pos (inside j (List.mem_append_right _ List.mem_cons_self))]
      exact isDepth_depth fun k hk => found k (earlier order j [] rfl k hk)

namespace Topological
variable (h : g.Topological order)
include h

theorem getElem?_depths (hi : i < g.size) : (g.depths order)[i]? = some d ↔ g.IsDepth i d := by
  have found := isDepth_depths h.nodup (fun j hj => (h.mem_iff j).1 hj) h.earlier i
    ((h.mem_iff i).2 hi)
  have known : (g.depths order)[i]? = some ((g.depths order).getD i 0) := by
    rw [List.getD_eq_getElem?_getD, List.getElem?_eq_getElem ((length_depths order).symm ▸ hi),
      Option.getD_some]
  rw [known, Option.some_inj]
  exact ⟨fun same => same ▸ found, found.unique⟩

/-- No depth up to the greatest is left out. -/
theorem exists_depth_of_le (closed : g.Closed) (nonempty : 0 < g.size)
    (hle : d ≤ (g.depths order).max?.getD 0) : ∃ i, i < g.size ∧ (g.depths order)[i]? = some d := by
  cases deepest : (g.depths order).max? with
  | none =>
    rw [← length_depths order, List.max?_eq_none_iff.1 deepest] at nonempty
    cases nonempty
  | some m =>
    rw [deepest, Option.getD_some] at hle
    obtain ⟨i, found⟩ := List.mem_iff_getElem?.1 (List.max?_mem deepest)
    have inside : i < g.size := length_depths order ▸ (List.getElem?_eq_some_iff.1 found).1
    obtain ⟨j, hj, below⟩ := ((h.getElem?_depths inside).1 found).exists_of_le inside closed hle
    exact ⟨j, hj, (h.getElem?_depths hj).2 below⟩

end Topological

end PipelineResolution.Graph
