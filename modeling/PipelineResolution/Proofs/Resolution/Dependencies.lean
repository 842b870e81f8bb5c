import PipelineResolution.Resolution.Attribute

/-!
# First occurrences

Roots and dependency targets are both gathered by `push`, which adds what a list lacks. A whole run
of it gives the first occurrences, in their order. A dependency set is two such lists, and merging
another set into it adds the edges of that set one by one.
-/
namespace PipelineResolution

instance : Membership Edge DependencySet := ⟨fun s edge => edge.target ∈ s.targets edge.kind⟩

instance (d : DependencySet) (edge : Edge) : Decidable (edge ∈ d) :=
  inferInstanceAs (Decidable (edge.target ∈ d.targets edge.kind))

namespace DependencySet

theorem push_of_mem {targets : List String} {target : String} (h : target ∈ targets) :
    push targets target = targets :=
  if_pos (by simpa using h)

theorem push_of_not_mem {targets : List String} {target : String} (h : target ∉ targets) :
    push targets target = targets ++ [target] :=
  if_neg (by simpa using h)

theorem mem_push {targets : List String} {target other : String} :
    other ∈ push targets target ↔ other ∈ targets ∨ other = target := by
  unfold push
  split
  · rename_i h
    constructor
    · exact .inl
    · rintro (h' | rfl)
      · exact h'
      · simpa using h
  · simp

theorem mem_foldl_push {targets more : List String} {other : String} :
    other ∈ more.foldl push targets ↔ other ∈ targets ∨ other ∈ more := by
  induction more generalizing targets with
  | nil => simp
  | cons target more ih => rw [List.foldl_cons, ih, mem_push, List.mem_cons, or_assoc]

theorem nodup_push {targets : List String} (h : targets.Nodup) (target : String) :
    (push targets target).Nodup := by
  unfold push
  split
  · exact h
  · rename_i hn
    have apart : ∀ other ∈ targets, other ≠ target := fun other ho he => by simp_all
    exact List.nodup_append.2 ⟨h, by simp, by simpa using apart⟩

theorem nodup_foldl_push {targets : List String} (h : targets.Nodup) (more : List String) :
    (more.foldl push targets).Nodup := by
  induction more generalizing targets with
  | nil => exact h
  | cons target more ih => exact ih (nodup_push h target)

theorem foldl_push (targets more : List String) :
    more.foldl push targets = targets ++ (more.filter (!targets.contains ·)).eraseDups := by
  induction more generalizing targets with
  | nil => simp
  | cons target more ih =>
    rw [List.foldl_cons, ih]
    unfold push
    split
    · rename_i h
      rw [List.filter_cons_of_neg (by simpa using h)]
    · rename_i h
      rw [List.filter_cons_of_pos (by simpa using h), List.eraseDups_cons, List.filter_filter]
      simp only [List.append_assoc, List.singleton_append, List.contains_append,
        List.contains_cons, List.contains_nil, Bool.or_false, Bool.not_or, Bool.and_comm]

theorem foldl_push_of_subset {targets more : List String} (h : ∀ target ∈ more, target ∈ targets) :
    more.foldl push targets = targets := by
  rw [foldl_push, List.filter_eq_nil_iff.2 (by simpa using h)]
  simp

theorem foldl_push_nil (more : List String) : more.foldl push [] = more.eraseDups := by
  rw [foldl_push, List.nil_append, List.filter_eq_self.2 (by simp)]

/-- The targets of the edges of one kind. -/
def targetsOf (kind : EdgeKind) (edges : List Edge) : List String :=
  (edges.filter (·.kind = kind)).map Edge.target

theorem targetsOf_flatMap (kind : EdgeKind) (f : α → List Edge) (as : List α) :
    targetsOf kind (as.flatMap f) = as.flatMap fun a => targetsOf kind (f a) := by
  simp only [targetsOf, List.filter_flatMap, List.map_flatMap]

theorem targetsOf_map (kind other : EdgeKind) (target : α → String) (as : List α) :
    targetsOf kind (as.map fun a => ⟨other, target a⟩) =
      if other = kind then as.map target else [] := by
  induction as with
  | nil => simp [targetsOf]
  | cons a as ih =>
    unfold targetsOf at ih ⊢
    by_cases h : other = kind
    · simpa [h] using ih
    · simp [h]

theorem foldl_add (s : DependencySet) (edges : List Edge) :
    edges.foldl add s = ⟨(targetsOf .step edges).foldl push s.steps,
      (targetsOf .credential edges).foldl push s.credentials⟩ := by
  induction edges generalizing s with
  | nil => rfl
  | cons edge edges ih =>
    obtain ⟨kind, target⟩ := edge
    rw [List.foldl_cons, ih]
    cases kind <;> simp [add, targetsOf]

theorem ofEdges_eq (edges : List Edge) :
    ofEdges edges =
      ⟨(targetsOf .step edges).eraseDups, (targetsOf .credential edges).eraseDups⟩ := by
  rw [ofEdges, foldl_add]
  simp only [empty, foldl_push_nil]

theorem ext_targets {s t : DependencySet} (h : ∀ kind, s.targets kind = t.targets kind) : s = t := by
  obtain ⟨steps, credentials⟩ := s
  obtain ⟨steps', credentials'⟩ := t
  obtain rfl : steps = steps' := h .step
  obtain rfl : credentials = credentials' := h .credential
  rfl

theorem targets_add (d : DependencySet) (edge : Edge) (kind : EdgeKind) :
    (d.add edge).targets kind =
      if edge.kind = kind then push (d.targets kind) edge.target else d.targets kind := by
  obtain ⟨other, target⟩ := edge
  cases other <;> cases kind <;> rfl

theorem targets_removeStep (d : DependencySet) (target : String) (kind : EdgeKind) :
    (d.removeStep target).targets kind =
      if .step = kind then (d.targets kind).filter (· != target) else d.targets kind := by
  cases kind <;> rfl

theorem targets_merge (d other : DependencySet) (kind : EdgeKind) :
    (d.merge other).targets kind = (other.targets kind).foldl push (d.targets kind) := by
  cases kind <;> rfl

theorem targets_foldl_add (d : DependencySet) (edges : List Edge) (kind : EdgeKind) :
    (edges.foldl add d).targets kind = (targetsOf kind edges).foldl push (d.targets kind) := by
  rw [foldl_add]
  cases kind <;> rfl

/-- The edges to the targets. -/
def edges (d : DependencySet) : List Edge :=
  d.steps.map (⟨.step, ·⟩) ++ d.credentials.map (⟨.credential, ·⟩)

theorem targetsOf_edges (d : DependencySet) (kind : EdgeKind) :
    targetsOf kind d.edges = d.targets kind := by
  have steps := targetsOf_map kind .step (fun target => target) d.steps
  have credentials := targetsOf_map kind .credential (fun target => target) d.credentials
  have parts : targetsOf kind d.edges = targetsOf kind (d.steps.map (⟨.step, ·⟩)) ++
      targetsOf kind (d.credentials.map (⟨.credential, ·⟩)) := by
    simp only [targetsOf, edges, List.filter_append, List.map_append]
  rw [parts, steps, credentials]
  cases kind <;> simp [targets]

theorem merge_eq_foldl_add (d other : DependencySet) : d.merge other = other.edges.foldl add d := by
  rw [foldl_add, targetsOf_edges, targetsOf_edges]
  rfl

section
variable {s t : DependencySet} {edge : Edge}

theorem mem_empty : ¬edge ∈ empty := by
  obtain ⟨kind, target⟩ := edge
  cases kind <;> exact List.not_mem_nil

theorem mem_merge : edge ∈ s.merge t ↔ edge ∈ s ∨ edge ∈ t := by
  obtain ⟨kind, target⟩ := edge
  cases kind <;> exact mem_foldl_push

theorem mem_add {other : Edge} : edge ∈ s.add other ↔ edge ∈ s ∨ edge = other := by
  obtain ⟨kind, target⟩ := edge
  obtain ⟨kind', target'⟩ := other
  cases kind <;> cases kind' <;>
    simp [Membership.mem, add, targets] <;> exact mem_push

theorem add_of_mem (h : edge ∈ s) : s.add edge = s := by
  refine ext_targets fun kind => ?_
  rw [targets_add]
  split
  · rename_i same
    subst same
    exact push_of_mem h
  · rfl

theorem foldl_add_of_mem {edges : List Edge} (h : ∀ edge ∈ edges, edge ∈ s) :
    edges.foldl add s = s := by
  induction edges with
  | nil => rfl
  | cons edge edges ih =>
    obtain ⟨first, rest⟩ := List.forall_mem_cons.1 h
    rw [List.foldl_cons, add_of_mem first, ih rest]

theorem mem_foldl_add {edges : List Edge} : edge ∈ edges.foldl add s ↔ edge ∈ s ∨ edge ∈ edges := by
  induction edges generalizing s with
  | nil => simp
  | cons other edges ih => rw [List.foldl_cons, ih, mem_add, List.mem_cons, or_assoc]

theorem mem_ofEdges {edges : List Edge} : edge ∈ ofEdges edges ↔ edge ∈ edges :=
  mem_foldl_add.trans (or_iff_right mem_empty)

theorem mem_removeStep {target : String} :
    edge ∈ s.removeStep target ↔ edge ∈ s ∧ edge ≠ ⟨.step, target⟩ := by
  obtain ⟨kind, found⟩ := edge
  cases kind
  · refine List.mem_filter.trans (and_congr_right fun _ => ?_)
    simp
  · exact (iff_self_and.2 fun _ h => by cases h)

theorem mem_foldl_merge {α : Type} {f : α → DependencySet} {as : List α} :
    edge ∈ as.foldl (fun found a => found.merge (f a)) s ↔ edge ∈ s ∨ ∃ a ∈ as, edge ∈ f a := by
  induction as generalizing s with
  | nil => simp
  | cons a as ih =>
    rw [List.foldl_cons, ih, mem_merge, or_assoc]
    simp

end

/-- No target is listed twice. -/
structure Distinct (s : DependencySet) : Prop where
  steps : s.steps.Nodup
  credentials : s.credentials.Nodup

namespace Distinct
variable {s : DependencySet}

theorem merge (h : s.Distinct) (other : DependencySet) : (s.merge other).Distinct :=
  ⟨nodup_foldl_push h.steps _, nodup_foldl_push h.credentials _⟩

theorem add (h : s.Distinct) (edge : Edge) : (s.add edge).Distinct := by
  unfold DependencySet.add
  cases edge.kind with
  | step => exact ⟨nodup_push h.steps _, h.credentials⟩
  | credential => exact ⟨h.steps, nodup_push h.credentials _⟩

theorem removeStep (h : s.Distinct) (target : String) : (s.removeStep target).Distinct :=
  ⟨h.steps.filter _, h.credentials⟩

end Distinct
end DependencySet

namespace Expression

theorem firstOccurrences_eq (names : List String) : firstOccurrences names = names.eraseDups :=
  DependencySet.foldl_push_nil names

theorem nodup_roots (e : Expression) : e.roots.Nodup :=
  DependencySet.nodup_foldl_push List.nodup_nil _

theorem mem_roots {e : Expression} {name : String} :
    name ∈ e.roots ↔ ∃ r ∈ e.references, r.root = name := by
  rw [roots, firstOccurrences_eq, List.mem_eraseDups, List.mem_map]

end Expression
end PipelineResolution
