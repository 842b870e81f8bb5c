import PipelineResolution.Proofs.Resolution.Decoded
import PipelineResolution.Proofs.Step.Decoding

/-!
# What inner blocks bring to a step

The body of an inner block is resolved on its own, an output brings the dependencies of its value, and
an attribute of the step's kind goes into the step at once. In each case the step ends up with what
the attributes wait for, merged one after the other.
-/
namespace PipelineResolution

namespace Block

/-- The attributes of an inner block that its step waits for; of an output only the value counts. -/
def innerAttributes (b : Block) : List Attribute :=
  if b.type = "output" then (b.attribute? "value").toList else b.attributes

/-- Where the attributes of an inner block of a step are resolved. -/
def innerContext (b : Block) (ctx : ResolutionContext) : ResolutionContext :=
  match b.type with
  | "loop" => ctx.within .loop
  | "retry" => ctx.within .retry
  | "error" => ctx.within .error
  | "throw" => ctx.within .throw
  | _ => ctx

/-- What the attributes of an inner block wait for, each on its own. -/
def innerSets (ctx : ResolutionContext) (b : Block) : List DependencySet :=
  b.innerAttributes.map fun a => (a.resolve (b.innerContext ctx)).dependencies

end Block

namespace Step
variable {s s' s'' : Step} {ctx : ResolutionContext} {as as' : List Attribute}

/-- Some attributes are resolved or wait, and what each of them waits for is merged into the
dependencies of the step. -/
structure Merges (ctx : ResolutionContext) (as : List Attribute) (s s' : Step) : Prop where
  settled : ∀ a ∈ as, (a.resolve ctx).reports = []
  dependencies : s'.dependencies =
    as.foldl (fun found a => found.merge (a.resolve ctx).dependencies) s.dependencies

namespace Merges

theorem of_eq (h : s'.dependencies = s.dependencies) : Merges ctx [] s s' :=
  ⟨fun _ ha => (nomatch ha), h⟩

theorem of_gathered {d : DependencySet} (h : d.GatheredFrom ctx as)
    (merged : s'.dependencies = s.dependencies.merge d) : Merges ctx as s s' :=
  ⟨h.settled, merged.trans (h.merge_eq _)⟩

theorem trans (h : Merges ctx as s s') (h' : Merges ctx as' s' s'') :
    Merges ctx (as ++ as') s s'' := by
  refine ⟨fun a ha => (List.mem_append.1 ha).elim (h.settled a) (h'.settled a), ?_⟩
  rw [h'.dependencies, h.dependencies, List.foldl_append]

/-- What each attribute of a list brings is brought by all of them. -/
theorem gather {f : Step → Attribute → Step × Diagnostics}
    (h : ∀ s a, (f s a).2.hasErrors = false → Merges ctx [a] s (f s a).1) (as : List Attribute)
    (accepted : (Diagnostics.gather f s as).2.hasErrors = false) :
    Merges ctx as s (Diagnostics.gather f s as).1 := by
  induction as generalizing s with
  | nil => exact .of_eq rfl
  | cons a as ih =>
    simp only [Diagnostics.gather, Diagnostics.hasErrors_append, Bool.or_eq_false_iff] at accepted
    exact (h s a accepted.1).trans (ih accepted.2)

end Merges

theorem merges_setOfKind (s : Step) (name : String) (a : Attribute)
    (accepted : (s.setOfKind name a ctx).2.hasErrors = false) :
    Merges ctx [a] s (s.setOfKind name a ctx).1 := by
  have brings := a.brings_resolve ctx
  unfold setOfKind at accepted ⊢
  dsimp only at accepted ⊢
  cases ho : (a.resolve ctx).outcome with
  | resolved v =>
    have gathered := brings.gathered _ (Resolution.brought_of_not_failed (by simp [ho]))
    dsimp only
    split <;> exact .of_gathered gathered rfl
  | deferred =>
    exact .of_gathered (brings.gathered _ (Resolution.brought_of_not_failed (by simp [ho]))) rfl
  | failed ds =>
    simp only [ho] at accepted
    rw [Expression.hasErrors_of_failed ho] at accepted
    cases accepted

theorem merges_setInner (b : Block) (s : Step) (a : Attribute)
    (accepted : (setInner ctx b s a).2.hasErrors = false) :
    Merges ctx [a] s (setInner ctx b s a).1 := by
  unfold setInner at accepted ⊢
  dsimp only at accepted ⊢
  split
  · rename_i kind
    rw [if_pos kind] at accepted
    exact merges_setOfKind s _ a accepted
  · rename_i kind
    rw [if_neg kind] at accepted
    cases accepted

theorem merges_setKindBlock (s : Step) (b : Block)
    (accepted : (s.setKindBlock b ctx).2.hasErrors = false) :
    Merges ctx b.attributes s (s.setKindBlock b ctx).1 := by
  simp only [setKindBlock, Diagnostics.hasErrors_append, Bool.or_eq_false_iff] at accepted
  have opened : Merges ctx [] s { s with spec := s.spec.openBlock b.type b.labels } := .of_eq rfl
  exact opened.trans (.gather (merges_setInner b) b.attributes accepted.1)

theorem merges_setPolicy {α : Type} (s : Step) (b : Block) {r : Resolution α}
    (brings : Brings ctx as r.brought) {put : α → Step → Step}
    (hput : ∀ p s, (put p s).dependencies = s.dependencies)
    (accepted : (s.setPolicy b r put).2.hasErrors = false) :
    Merges ctx as s (s.setPolicy b r put).1 := by
  unfold setPolicy at accepted ⊢
  dsimp only at accepted ⊢
  cases ho : r.outcome with
  | resolved p =>
    have gathered := brings.gathered _ (Resolution.brought_of_not_failed (by simp [ho]))
    exact .of_gathered gathered (hput p _)
  | deferred =>
    exact .of_gathered (brings.gathered _ (Resolution.brought_of_not_failed (by simp [ho]))) rfl
  | failed ds =>
    simp only [ho] at accepted
    rw [brings.hasErrors ds (Resolution.brought_of_failed ho)] at accepted
    cases accepted

theorem merges_setLoop (s : Step) (b : Block) (accepted : (s.setLoop b ctx).2.hasErrors = false) :
    Merges (ctx.within .loop) b.attributes s (s.setLoop b ctx).1 := by
  have brings := Loop.brings_ofBlock b s.kind ctx
  unfold setLoop at accepted ⊢
  cases hl : Loop.ofBlock b s.kind ctx with
  | ok found => exact .of_gathered (brings.gathered found.2 (by rw [hl]; rfl)) rfl
  | error ds =>
    simp only [hl] at accepted
    rw [brings.hasErrors ds (by rw [hl]; rfl)] at accepted
    cases accepted

theorem merges_addThrow (s : Step) (b : Block) (accepted : (s.addThrow b ctx).2.hasErrors = false) :
    Merges (ctx.within .throw) b.attributes s (s.addThrow b ctx).1 := by
  have brings := Throw.brings_ofBlock b ctx
  unfold addThrow at accepted ⊢
  cases ht : Throw.ofBlock b ctx with
  | ok found => exact .of_gathered (brings.gathered found.2 (by rw [ht]; rfl)) rfl
  | error ds =>
    simp only [ht] at accepted
    rw [brings.hasErrors ds (by rw [ht]; rfl)] at accepted
    cases accepted

theorem merges_addOutput (s : Step) (b : Block)
    (accepted : (s.addOutput b ctx).2.hasErrors = false) :
    Merges ctx (b.attribute? "value").toList s (s.addOutput b ctx).1 := by
  have brings := NamedOutput.brings_ofBlock b ctx
  unfold addOutput at accepted ⊢
  cases ho : NamedOutput.ofBlock b ctx with
  | ok o =>
    simp only [ho] at accepted ⊢
    split
    · rename_i taken
      rw [if_pos taken] at accepted
      cases accepted
    · exact .of_gathered (brings.gathered o.dependencies (by rw [ho]; rfl)) rfl
  | error ds =>
    simp only [ho] at accepted
    rw [brings.hasErrors ds (by rw [ho]; rfl)] at accepted
    cases accepted

/-- An inner block brings what its attributes wait for in the place where they stand. -/
theorem merges_setBlock (s : Step) (b : Block) (accepted : (s.setBlock b ctx).2.hasErrors = false) :
    Merges (b.innerContext ctx) b.innerAttributes s (s.setBlock b ctx).1 := by
  unfold setBlock at accepted ⊢
  unfold Block.innerContext Block.innerAttributes
  split at accepted
  · rename_i ht
    simp only [ht, String.reduceEq, if_false]
    exact merges_setLoop s b accepted
  · rename_i ht
    simp only [ht, String.reduceEq, if_false]
    exact merges_setPolicy s b (RetryPolicy.brings_ofBlock b ctx) (fun _ _ => rfl) accepted
  · rename_i ht
    simp only [ht, String.reduceEq, if_false]
    exact merges_setPolicy s b (FailurePolicy.brings_ofBlock b ctx) (fun _ _ => rfl) accepted
  · rename_i ht
    simp only [ht, String.reduceEq, if_false]
    exact merges_addThrow s b accepted
  · rename_i ht
    simp only [ht, if_true]
    exact merges_addOutput s b accepted
  · rename_i output
    simp only [if_neg output]
    split at accepted
    · rename_i kind
      rw [if_pos kind]
      exact merges_setKindBlock s b accepted
    · cases accepted

theorem merges_setBlockOnce (state : Step × List String) (b : Block)
    (accepted : (setBlockOnce ctx state b).2.hasErrors = false) :
    Merges (b.innerContext ctx) b.innerAttributes state.1 (setBlockOnce ctx state b).1.1 := by
  unfold setBlockOnce at accepted ⊢
  dsimp only at accepted ⊢
  split
  · rename_i seen
    rw [if_pos seen] at accepted
    cases accepted
  · rename_i seen
    rw [if_neg seen] at accepted
    exact merges_setBlock state.1 b accepted

/-- Inner blocks bring what their attributes wait for, block after block. -/
theorem dependencies_gather_setBlockOnce (bs : List Block) {state : Step × List String}
    (accepted : (Diagnostics.gather (setBlockOnce ctx) state bs).2.hasErrors = false) :
    (Diagnostics.gather (setBlockOnce ctx) state bs).1.1.dependencies =
      (bs.flatMap (Block.innerSets ctx)).foldl .merge state.1.dependencies := by
  induction bs generalizing state with
  | nil => rfl
  | cons b bs ih =>
    simp only [Diagnostics.gather, Diagnostics.hasErrors_append, Bool.or_eq_false_iff] at accepted
    have first := (merges_setBlockOnce state b accepted.1).dependencies
    refine (ih accepted.2).trans ?_
    rw [first, List.flatMap_cons, List.foldl_append, Block.innerSets, List.foldl_map]

theorem dependencies_setBlocks {b : Block} (accepted : (s.setBlocks b ctx).2.hasErrors = false) :
    (s.setBlocks b ctx).1.dependencies =
      (b.blocks.flatMap (Block.innerSets ctx)).foldl .merge s.dependencies :=
  dependencies_gather_setBlockOnce b.blocks accepted

end Step
end PipelineResolution
