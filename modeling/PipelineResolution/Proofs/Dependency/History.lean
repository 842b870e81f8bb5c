import Mathlib.Data.List.Infix
import Mathlib.Data.List.Induction
import PipelineResolution.Proofs.Dependency.Merging

/-!
# Dependency sets over time

A dependency set is built by adding edges, merging sets that are built alike, and dropping steps. What
happens to its edges meanwhile is a history: edges are put in and taken out. Whatever the operations
are, the set lists the edges that the history leaves in, each once and in the order in which they were
last put in anew.
-/
namespace PipelineResolution
namespace DependencySet

/-- What is done to a set. A set that is merged in was built by operations as well. -/
inductive Operation where
  | add (edge : Edge)
  | merge (operations : List Operation)
  | removeStep (target : String)

mutual

def Operation.apply : Operation → DependencySet → DependencySet
  | .add edge, s => s.add edge
  | .merge ops, s => s.merge (run ops empty)
  | .removeStep target, s => s.removeStep target

/-- Carries out operations one after the other. -/
def run : List Operation → DependencySet → DependencySet
  | [], s => s
  | op :: ops, s => run ops (op.apply s)

end

/-- The set that operations make of the empty one. -/
def build (ops : List Operation) : DependencySet := run ops empty

/-- Something that happens to an edge. -/
inductive Event where
  | insert (edge : Edge)
  | erase (edge : Edge)
  deriving DecidableEq

/-- A merge puts in the edges of the other set, one after the other. -/
def Operation.events : Operation → List Event
  | .add edge => [.insert edge]
  | .merge ops => (build ops).edges.map .insert
  | .removeStep target => [.erase ⟨.step, target⟩]

/-- All that happens to the edges while operations are carried out. -/
def history (ops : List Operation) : List Event := ops.flatMap Operation.events

/-- The edge is in after some events: it is put in, and not taken out from then on. -/
def Held (events : List Event) (edge : Edge) : Prop :=
  ∃ later, .insert edge :: later <:+ events ∧ .erase edge ∉ later

/-- The event at a position puts in an edge that is not in. -/
def InsertedAt (events : List Event) (edge : Edge) (n : Nat) : Prop :=
  events[n]? = some (.insert edge) ∧ ¬Held (events.take n) edge

/-- The position at which the edge is put in anew for the last time. -/
def LastInsertedAt (events : List Event) (edge : Edge) (n : Nat) : Prop :=
  InsertedAt events edge n ∧ ∀ m, InsertedAt events edge m → m ≤ n

/-- The targets of a kind that some events leave in, each once, and in the order in which they were
last put in anew. -/
structure InOrder (events : List Event) (kind : EdgeKind) (targets : List String) : Prop where
  nodup : targets.Nodup
  mem_iff : ∀ target, target ∈ targets ↔ Held events ⟨kind, target⟩
  inserted : ∀ target ∈ targets, ∃ n, LastInsertedAt events ⟨kind, target⟩ n
  ascending : targets.Pairwise fun earlier later => ∀ m n,
    LastInsertedAt events ⟨kind, earlier⟩ m → LastInsertedAt events ⟨kind, later⟩ n → m < n

/-! ## One more event -/

variable {events : List Event} {event : Event} {edge : Edge} {n : Nat}

theorem not_held_nil : ¬Held [] edge := by
  rintro ⟨later, suffix, -⟩
  cases List.suffix_nil.1 suffix

theorem held_concat :
    Held (events ++ [event]) edge ↔
      event = .insert edge ∨ event ≠ .erase edge ∧ Held events edge := by
  constructor
  · rintro ⟨later, suffix, kept⟩
    obtain ⟨before, split⟩ := suffix
    rcases List.eq_nil_or_concat' later with rfl | ⟨between, last, rfl⟩
    · obtain ⟨-, same⟩ := List.append_inj' split rfl
      exact .inl (List.cons.inj same).1.symm
    · rw [← List.cons_append, ← List.append_assoc] at split
      obtain ⟨same, last_eq⟩ := List.append_inj' split rfl
      cases last_eq
      refine .inr ⟨fun erased => kept (by simp [erased]), between, ⟨before, same⟩, fun h => kept ?_⟩
      exact List.mem_append_left _ h
  · rintro (rfl | ⟨other, later, ⟨before, rfl⟩, kept⟩)
    · exact ⟨[], List.suffix_append _ _, List.not_mem_nil⟩
    · exact ⟨later ++ [event], ⟨before, by simp⟩, by simp [kept, other.symm]⟩

theorem lt_of_insertedAt (h : InsertedAt events edge n) : n < events.length :=
  (List.getElem?_eq_some_iff.1 h.1).1

theorem insertedAt_concat :
    InsertedAt (events ++ [event]) edge n ↔
      InsertedAt events edge n ∨ n = events.length ∧ event = .insert edge ∧ ¬Held events edge := by
  unfold InsertedAt
  rcases Nat.lt_trichotomy n events.length with earlier | rfl | beyond
  · rw [List.getElem?_append_left earlier, List.take_append_of_le_length earlier.le]
    simp [earlier.ne]
  · simp
  · have none : (events ++ [event])[n]? = none :=
      List.getElem?_eq_none (by simpa using Nat.succ_le_of_lt beyond)
    simp [none, List.getElem?_eq_none beyond.le, beyond.ne']

/-- An event that puts nothing in anew changes no time. -/
theorem lastInsertedAt_concat (old : event = .insert edge → Held events edge) :
    LastInsertedAt (events ++ [event]) edge n ↔ LastInsertedAt events edge n := by
  have same (m : Nat) : InsertedAt (events ++ [event]) edge m ↔ InsertedAt events edge m :=
    insertedAt_concat.trans (or_iff_left fun h => h.2.2 (old h.2.1))
  simp only [LastInsertedAt, same]

theorem lastInsertedAt_new (new : ¬Held events edge) :
    LastInsertedAt (events ++ [.insert edge]) edge events.length := by
  refine ⟨insertedAt_concat.2 (.inr ⟨rfl, rfl, new⟩), fun m h => ?_⟩
  have := lt_of_insertedAt h
  rw [List.length_append, List.length_singleton] at this
  omega

theorem LastInsertedAt.unique {m : Nat} (h : LastInsertedAt events edge m)
    (h' : LastInsertedAt events edge n) : m = n :=
  Nat.le_antisymm (h'.2 m h.1) (h.2 n h'.1)

/-! ## The targets of a kind -/

/-- What an event makes of the targets of a kind. -/
def Event.act (kind : EdgeKind) (targets : List String) : Event → List String
  | .insert edge => if edge.kind = kind then push targets edge.target else targets
  | .erase edge => if edge.kind = kind then targets.filter (· != edge.target) else targets

variable {kind : EdgeKind} {targets targets' : List String}

namespace InOrder

/-- What is left of the targets keeps its order when nothing is put in anew. -/
theorem of_sublist (h : InOrder events kind targets) (sub : targets'.Sublist targets)
    (old : ∀ target, event = .insert ⟨kind, target⟩ → Held events ⟨kind, target⟩)
    (mem_iff : ∀ target, target ∈ targets' ↔ Held (events ++ [event]) ⟨kind, target⟩) :
    InOrder (events ++ [event]) kind targets' where
  nodup := h.nodup.sublist sub
  mem_iff := mem_iff
  inserted target ht := by
    obtain ⟨n, at_n⟩ := h.inserted target (sub.subset ht)
    exact ⟨n, (lastInsertedAt_concat (old target)).2 at_n⟩
  ascending := by
    refine (h.ascending.sublist sub).imp fun {earlier later} ordered m n hm hn => ?_
    exact ordered m n ((lastInsertedAt_concat (old earlier)).1 hm)
      ((lastInsertedAt_concat (old later)).1 hn)

/-- A target that is put in anew comes last. -/
theorem concat (h : InOrder events kind targets) {target : String} (new : target ∉ targets) :
    InOrder (events ++ [.insert ⟨kind, target⟩]) kind (targets ++ [target]) := by
  have out : ¬Held events ⟨kind, target⟩ := fun held => new ((h.mem_iff target).2 held)
  have apart : ∀ other ∈ targets, other ≠ target := fun other ho same => new (same ▸ ho)
  have old : ∀ other ∈ targets, ∀ n,
      LastInsertedAt (events ++ [.insert ⟨kind, target⟩]) ⟨kind, other⟩ n ↔
        LastInsertedAt events ⟨kind, other⟩ n := fun other ho n =>
    lastInsertedAt_concat fun same => by
      cases same
      exact absurd ho new
  refine ⟨?_, fun other => ?_, fun other ho => ?_, ?_⟩
  · exact List.nodup_append.2 ⟨h.nodup, by simp, by simpa using apart⟩
  · rw [held_concat, List.mem_append, List.mem_singleton, h.mem_iff]
    simp [or_comm, eq_comm]
  · rcases List.mem_append.1 ho with ho | ho
    · obtain ⟨n, at_n⟩ := h.inserted other ho
      exact ⟨n, (old other ho n).2 at_n⟩
    · rw [List.mem_singleton.1 ho]
      exact ⟨_, lastInsertedAt_new out⟩
  · refine List.pairwise_append.2 ⟨?_, List.pairwise_singleton _ _, fun earlier he later hl => ?_⟩
    · refine h.ascending.imp_of_mem fun {earlier later} he hl ordered m n hm hn => ?_
      exact ordered m n ((old earlier he m).1 hm) ((old later hl n).1 hn)
    · intro m n hm hn
      rw [List.mem_singleton.1 hl] at hn
      rw [hn.unique (lastInsertedAt_new out)]
      exact lt_of_insertedAt ((old earlier he m).1 hm).1

/-- An event that neither puts in a missing target of the kind nor takes one out leaves the targets in
order as they are. -/
theorem keep (h : InOrder events kind targets)
    (old : ∀ target, event = .insert ⟨kind, target⟩ → target ∈ targets)
    (kept : ∀ target, event ≠ .erase ⟨kind, target⟩) : InOrder (events ++ [event]) kind targets := by
  refine h.of_sublist (.refl _) (fun t ht => (h.mem_iff t).1 (old t ht)) fun t => ?_
  rw [held_concat, ← h.mem_iff]
  exact ⟨fun ht => .inr ⟨kept t, ht⟩, fun ht => ht.elim (old t) And.right⟩

theorem insert (h : InOrder events kind targets) (target : String) :
    InOrder (events ++ [.insert ⟨kind, target⟩]) kind (push targets target) := by
  unfold push
  split
  · rename_i found
    refine h.keep (fun t ht => ?_) fun t ht => nomatch ht
    cases ht
    simpa using found
  · rename_i new
    exact h.concat (by simpa using new)

theorem erase (h : InOrder events kind targets) (target : String) :
    InOrder (events ++ [.erase ⟨kind, target⟩]) kind (targets.filter (· != target)) := by
  refine h.of_sublist List.filter_sublist (fun t ht => nomatch ht) fun t => ?_
  have other : Event.erase ⟨kind, target⟩ ≠ .erase ⟨kind, t⟩ ↔ t ≠ target := by
    simp [@eq_comm _ target]
  rw [held_concat, List.mem_filter, h.mem_iff, other, bne_iff_ne, and_comm]
  exact (or_iff_right fun h => nomatch h).symm

/-- Every event keeps the targets in order. -/
theorem act (h : InOrder events kind targets) (event : Event) :
    InOrder (events ++ [event]) kind (event.act kind targets) := by
  cases event with
  | insert edge =>
    rw [Event.act]
    split
    · rename_i same
      subst same
      exact h.insert edge.target
    · rename_i other
      exact h.keep (fun t ht => by cases ht; exact absurd rfl other) fun t ht => nomatch ht
  | erase edge =>
    rw [Event.act]
    split
    · rename_i same
      subst same
      exact h.erase edge.target
    · rename_i other
      exact h.keep (fun t ht => nomatch ht) fun t ht => by cases ht; exact absurd rfl other

end InOrder

theorem inOrder_nil : InOrder [] kind [] :=
  ⟨List.nodup_nil, fun _ => iff_of_false List.not_mem_nil not_held_nil,
    fun _ h => absurd h List.not_mem_nil, .nil⟩

/-- A whole history leaves the targets in order. -/
theorem inOrder_foldl (events : List Event) (kind : EdgeKind) :
    InOrder events kind (events.foldl (Event.act kind) []) := by
  induction events using List.reverseRecOn with
  | nil => exact inOrder_nil
  | append_singleton events event ih =>
    rw [List.foldl_append]
    exact ih.act event

/-! ## Operations as events -/

theorem targets_foldl_insert (edges : List Edge) (s : DependencySet) (kind : EdgeKind) :
    (edges.foldl add s).targets kind =
      (edges.map Event.insert).foldl (Event.act kind) (s.targets kind) := by
  induction edges generalizing s with
  | nil => rfl
  | cons edge edges ih =>
    rw [List.foldl_cons, ih, List.map_cons, List.foldl_cons, targets_add]
    rfl

/-- An operation does to the targets of a kind what its events do. -/
theorem Operation.targets_apply (op : Operation) (s : DependencySet) (kind : EdgeKind) :
    (op.apply s).targets kind = op.events.foldl (Event.act kind) (s.targets kind) := by
  cases op with
  | add edge =>
    rw [apply]
    exact targets_add s edge kind
  | merge ops =>
    rw [apply, merge_eq_foldl_add]
    exact targets_foldl_insert _ s kind
  | removeStep target =>
    rw [apply]
    exact targets_removeStep s target kind

theorem targets_run (ops : List Operation) (s : DependencySet) (kind : EdgeKind) :
    (run ops s).targets kind = (history ops).foldl (Event.act kind) (s.targets kind) := by
  induction ops generalizing s with
  | nil => rfl
  | cons op ops ih =>
    rw [run, ih, op.targets_apply, ← List.foldl_append]
    rfl

/-- Whatever is done to the empty set, the targets of each kind are those that are left in, in the
order in which they were last put in anew. -/
theorem inOrder_build (ops : List Operation) (kind : EdgeKind) :
    InOrder (history ops) kind ((build ops).targets kind) := by
  have start : empty.targets kind = [] := by cases kind <;> rfl
  rw [build, targets_run, start]
  exact inOrder_foldl _ kind

theorem distinct_build (ops : List Operation) : (build ops).Distinct :=
  ⟨(inOrder_build ops .step).nodup, (inOrder_build ops .credential).nodup⟩

/-! ## Groups of merges -/

/-- Sets that are merged one into another, in groups. -/
inductive Grouping where
  | single (operations : List Operation)
  | merge (into other : Grouping)

namespace Grouping

/-- The set that results. -/
def merged : Grouping → DependencySet
  | single ops => build ops
  | merge into other => into.merged.merge other.merged

/-- The sets without their groups, in order. -/
def sets : Grouping → List DependencySet
  | single ops => [build ops]
  | merge into other => into.sets ++ other.sets

theorem merge_merged (s : DependencySet) (g : Grouping) :
    s.merge g.merged = g.sets.foldl DependencySet.merge s := by
  induction g generalizing s with
  | single ops => rfl
  | merge into other ihi iho =>
    rw [merged, ← merge_assoc, ihi, iho, sets, List.foldl_append]

theorem distinct_merged (g : Grouping) : g.merged.Distinct := by
  induction g with
  | single ops => exact distinct_build ops
  | merge into other ih _ => exact ih.merge _

/-- Groups do not matter: the result is that of merging the sets one after the other. -/
theorem merged_eq (g : Grouping) : g.merged = g.sets.foldl DependencySet.merge empty := by
  rw [← merge_merged, empty_merge g.distinct_merged]

end Grouping

/-! ## One kind at a time -/

mutual

/-- What concerns the targets of a kind: an edge of the kind, what is merged in of it, and dropping a
step if the kind is that of steps. -/
def Operation.only (kind : EdgeKind) : Operation → List Operation
  | .add edge => if edge.kind = kind then [.add edge] else []
  | .merge ops => [.merge (only kind ops)]
  | .removeStep target => if .step = kind then [.removeStep target] else []

/-- The part of some operations that concerns the targets of a kind. -/
def only (kind : EdgeKind) : List Operation → List Operation
  | [] => []
  | op :: ops => op.only kind ++ only kind ops

end

theorem run_append (ops more : List Operation) (s : DependencySet) :
    run (ops ++ more) s = run more (run ops s) := by
  induction ops generalizing s with
  | nil => rfl
  | cons op ops ih => exact ih (op.apply s)

theorem build_concat (ops : List Operation) (op : Operation) :
    build (ops ++ [op]) = op.apply (build ops) :=
  run_append ops [op] empty

mutual

theorem Operation.targets_run_only (kind : EdgeKind) : ∀ (op : Operation) {s t : DependencySet},
    s.targets kind = t.targets kind →
      (op.apply s).targets kind = (run (op.only kind) t).targets kind
  | .add edge, s, t, same => by
    rw [Operation.only]
    split
    · change (s.add edge).targets kind = (t.add edge).targets kind
      rw [targets_add, targets_add, same]
    · rename_i other
      change (s.add edge).targets kind = t.targets kind
      rw [targets_add, if_neg other, same]
  | .merge ops, s, t, same => by
    have inner := DependencySet.targets_run_only kind ops (s := empty) (t := empty) rfl
    change (s.merge (run ops empty)).targets kind = (t.merge (run (only kind ops) empty)).targets kind
    rw [targets_merge, targets_merge, same, inner]
  | .removeStep target, s, t, same => by
    rw [Operation.only]
    split
    · change (s.removeStep target).targets kind = (t.removeStep target).targets kind
      rw [targets_removeStep, targets_removeStep, same]
    · rename_i other
      change (s.removeStep target).targets kind = t.targets kind
      rw [targets_removeStep, if_neg other, same]

theorem targets_run_only (kind : EdgeKind) : ∀ (ops : List Operation) {s t : DependencySet},
    s.targets kind = t.targets kind →
      (run ops s).targets kind = (run (only kind ops) t).targets kind
  | [], _, _, same => same
  | op :: ops, s, t, same => by
    rw [run, only, run_append]
    exact targets_run_only kind ops (op.targets_run_only kind same)

end

/-- The targets of a kind are what the operations of the kind alone make of them. -/
theorem targets_build_only (ops : List Operation) (kind : EdgeKind) :
    (build ops).targets kind = (build (only kind ops)).targets kind :=
  targets_run_only kind ops rfl

end DependencySet
end PipelineResolution
