import PipelineResolution.Proofs.Resolution.Dependencies

/-!
# Merging dependency sets

Adding an edge to a set that is merged in, or to the set that it is merged into, comes to the same. So
merging is associative, and merging in what was merged before is merging in its parts.
-/
namespace PipelineResolution
namespace DependencySet

variable {s t : DependencySet} {edge : Edge} {targets more : List String}

/-- Adding an edge tells whether it was missing. -/
theorem insert_eq (s : DependencySet) (edge : Edge) :
    s.insert edge = (s.add edge, decide (edge ∉ s)) := by
  have found : s.contains edge = true ↔ edge ∈ s := List.contains_iff_mem
  unfold insert
  by_cases h : edge ∈ s
  · rw [if_pos (found.2 h), add_of_mem h, decide_eq_false (not_not_intro h)]
  · rw [if_neg fun hf => h (found.1 hf), decide_eq_true h]

theorem foldl_push_push (targets more : List String) (target : String) :
    (push more target).foldl push targets = push (more.foldl push targets) target := by
  by_cases h : target ∈ more
  · rw [push_of_mem h, push_of_mem (mem_foldl_push.2 (.inr h))]
  · rw [push_of_not_mem h, List.foldl_append, List.foldl_cons, List.foldl_nil]

theorem foldl_push_of_nodup (h : (targets ++ more).Nodup) :
    more.foldl push targets = targets ++ more := by
  induction more generalizing targets with
  | nil => simp
  | cons target more ih =>
    have new : target ∉ targets := fun found =>
      (List.nodup_append.1 h).2.2 target found target List.mem_cons_self rfl
    rw [List.append_cons] at h
    rw [List.foldl_cons, push_of_not_mem new, ih h, List.append_assoc, List.singleton_append]

theorem merge_add (s t : DependencySet) (edge : Edge) :
    s.merge (t.add edge) = (s.merge t).add edge := by
  refine ext_targets fun kind => ?_
  rw [targets_merge, targets_add, targets_add, targets_merge]
  split
  · exact foldl_push_push _ _ _
  · rfl

theorem merge_foldl_add (s t : DependencySet) (edges : List Edge) :
    s.merge (edges.foldl add t) = edges.foldl add (s.merge t) := by
  induction edges generalizing t with
  | nil => rfl
  | cons edge edges ih => rw [List.foldl_cons, ih, merge_add, List.foldl_cons]

theorem merge_ofEdges (s : DependencySet) (edges : List Edge) :
    s.merge (ofEdges edges) = edges.foldl add s := merge_foldl_add s empty edges

theorem merge_assoc (s t u : DependencySet) : (s.merge t).merge u = s.merge (t.merge u) := by
  rw [merge_eq_foldl_add t u, merge_foldl_add, ← merge_eq_foldl_add]

theorem merge_self (s : DependencySet) : s.merge s = s := by
  refine ext_targets fun kind => ?_
  rw [targets_merge]
  exact foldl_push_of_subset fun _ h => h

theorem merge_empty (s : DependencySet) : s.merge empty = s := rfl

theorem empty_merge (h : s.Distinct) : empty.merge s = s := by
  refine ext_targets fun kind => ?_
  rw [targets_merge]
  cases kind with
  | step => exact foldl_push_of_nodup h.steps
  | credential => exact foldl_push_of_nodup h.credentials

/-- Sets that are merged in together are merged in one after the other. -/
theorem merge_foldl_merge {α : Type} (f : α → DependencySet) (as : List α) (s t : DependencySet) :
    s.merge (as.foldl (fun found a => found.merge (f a)) t) =
      as.foldl (fun found a => found.merge (f a)) (s.merge t) := by
  induction as generalizing t with
  | nil => rfl
  | cons a as ih => rw [List.foldl_cons, ih, List.foldl_cons, merge_assoc]

end DependencySet
end PipelineResolution
