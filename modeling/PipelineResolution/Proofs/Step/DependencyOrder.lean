import PipelineResolution.Proofs.Dependency.History
import PipelineResolution.Proofs.Step.Reresolution

/-!
# The order of dependencies

What a step waits for is gathered in groups: a body merges what its attributes wait for, an output
brings the dependencies of its value, and the step merges both. Since groups of merges do not matter,
a step lists its targets in the order in which its attributes, and then those of its inner blocks,
bring them.
-/
namespace PipelineResolution
open DependencySet

/-- What an attribute of a step makes it wait for: what the attribute itself waits for, and what it
names. -/
def Attribute.stepSets (ctx : ResolutionContext) (a : Attribute) : List DependencySet :=
  [(a.resolve ctx).dependencies, .ofEdges (a.namedEdges ctx)]

/-- What the attributes of a step and of its inner blocks make it wait for, each on its own and in the
order of the document. -/
def Block.stepSets (ctx : ResolutionContext) (b : Block) : List DependencySet :=
  b.attributes.flatMap (Attribute.stepSets ctx) ++ b.blocks.flatMap (innerSets ctx)

namespace Step
variable {s : Step} {b : Block} {pipeline : String} {ctx : ResolutionContext}

theorem foldl_await_eq (as : List Attribute) (d : DependencySet) :
    as.foldl (Attribute.await ctx) d = (as.flatMap (Attribute.stepSets ctx)).foldl merge d := by
  induction as generalizing d with
  | nil => rfl
  | cons a as ih =>
    have first : a.await ctx d = (a.stepSets ctx).foldl merge d :=
      (DependencySet.merge_ofEdges _ _).symm
    rw [List.foldl_cons, ih, first, List.flatMap_cons, List.foldl_append]

/-- An accepted step has the dependencies that it would have if every attribute were merged into it at
once, without itself. -/
theorem dependencies_flat (accepted : ofBlock b pipeline ctx = .ok s) :
    s.dependencies = ((b.stepSets ctx).foldl merge empty).removeStep s.fullName := by
  obtain ⟨word, name, kind, -, -, taken, -, rfl⟩ := exists_of_ofBlock accepted
  simp only [takeIn, Diagnostics.hasErrors_append, Bool.or_eq_false_iff] at taken
  have attributes := dependencies_setAttributes taken.1
  have blocks := dependencies_setBlocks taken.2
  rw [attributes, foldl_await_eq, ← List.foldl_append] at blocks
  exact congrArg (fun d : DependencySet => d.removeStep _) blocks

end Step

/-- A dependency set is an ordered set. Whatever operations build it from the empty set, each of its
lists holds the targets that are left in, each once and in the order in which they were last put in
anew. Adding an edge tells whether it was missing. Each list is what the operations of its kind make
of it alone. Merging is associative and idempotent, and the empty set is neutral. So groups of merges do
not matter: sets that are merged one into another in groups give what they give one after the other,
and a step ends up with the lists, without itself, that it would have if what its attributes, those of
its bodies and the values of its outputs wait for were merged into it directly. -/
theorem dependencies_keep_order (ops more rest : List Operation) :
    (∀ kind, InOrder (history ops) kind ((build ops).targets kind)) ∧
    (∀ edge, (build ops).insert edge = (build (ops ++ [.add edge]), decide (edge ∉ build ops))) ∧
    (∀ kind, (build ops).targets kind = (build (only kind ops)).targets kind) ∧
    ((build ops).merge (build more)).merge (build rest) =
      (build ops).merge ((build more).merge (build rest)) ∧
    (build ops).merge (build ops) = build ops ∧
    (build ops).merge empty = build ops ∧ empty.merge (build ops) = build ops ∧
    (∀ g : Grouping, g.merged = g.sets.foldl merge empty) ∧
    ∀ (b : Block) (pipeline : String) (ctx : ResolutionContext) (s : Step),
      Step.ofBlock b pipeline ctx = .ok s →
        s.dependencies = ((b.stepSets ctx).foldl merge empty).removeStep s.fullName := by
  refine ⟨inOrder_build ops, fun edge => ?_, targets_build_only ops, merge_assoc _ _ _,
    merge_self _, merge_empty _, empty_merge (distinct_build ops), Grouping.merged_eq,
    fun _ _ _ _ accepted => Step.dependencies_flat accepted⟩
  rw [insert_eq, build_concat]
  rfl

/-- Two steps and a credential, one of the steps dropped and found again. -/
def refinding : List Operation :=
  [.add (.step "http" "b"), .add (.step "http" "a"), .add (.credential "aws" "main"),
    .removeStep "http.b", .merge [.add (.step "http" "a"), .add (.step "http" "b")]]

/-- A step that refers to others in an attribute, in a body and in an output. -/
def gatheringBlock : Block where
  type := "step"
  labels := ["transform", "t"]
  attributes := [
    ⟨"value", .term (.access (.variable "step") [.member "http", .member "b", .member "x"]), default⟩]
  blocks := [
    { type := "retry", labels := [], blocks := [], location := default, diagnostics := [],
      attributes := [
        ⟨"if", .term (.access (.variable "step") [.member "http", .member "a", .member "x"]), default⟩,
        ⟨"max_attempts", .term (.access (.variable "step") [.member "http", .member "b", .member "n"]),
          default⟩] },
    { type := "output", labels := ["o"], blocks := [], location := default, diagnostics := [],
      attributes := [
        ⟨"value", .tuple [
          .term (.access (.variable "credential") [.member "aws", .member "main"]),
          .term (.access (.variable "step") [.member "sleep", .member "c", .member "x"])],
          default⟩] }]
  location := default
  diagnostics := []

/-- A target that is dropped and found again goes to the end; what a body and an output bring comes
after what the attributes bring. -/
theorem dependencies_keep_order_refinding :
    (build refinding).steps = ["http.a", "http.b"] ∧
    InOrder (history refinding) .step ["http.a", "http.b"] ∧
    ∃ s, Step.ofBlock gatheringBlock "p" ⟨.empty, {}, .plain, .brief⟩ = .ok s ∧
      s.dependencies = ⟨["http.b", "http.a", "sleep.c"], ["aws.main"]⟩ ∧
      s.dependencies =
        ((gatheringBlock.stepSets ⟨.empty, {}, .plain, .brief⟩).foldl merge empty).removeStep
          s.fullName := by
  obtain ⟨ordered, -, -, -, -, -, -, -, flat⟩ := dependencies_keep_order refinding [] []
  obtain ⟨s, accepted, found⟩ :
      ∃ s, Step.ofBlock gatheringBlock "p" ⟨.empty, {}, .plain, .brief⟩ = .ok s ∧
        s.dependencies = ⟨["http.b", "http.a", "sleep.c"], ["aws.main"]⟩ := by
    decide
  exact ⟨by decide, ordered .step, s, accepted, found, flat _ _ _ s accepted⟩

end PipelineResolution
