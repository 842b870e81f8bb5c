import Mathlib.Data.List.Basic
import PipelineResolution.Proofs.Resolution.Edges
import PipelineResolution.Proofs.Step.Merging
import PipelineResolution.Proofs.Step.Decoding

/-!
# The edges of a decoded step

Every attribute and inner block of a step adds the edges of its expressions, and an explicit list
adds those that it names. So an accepted step waits for exactly the targets that its block refers
to, apart from itself.
-/
namespace PipelineResolution

namespace Block

/-- The expressions of an inner block of a step; of an output only the value counts. -/
def innerExpressions (b : Block) : List Expression :=
  if b.type = "output" then ((b.attribute? "value").map (·.expression)).toList
  else b.attributes.map (·.expression)

/-- The expressions of a step's block and of the blocks inside it. -/
def stepExpressions (b : Block) : List Expression :=
  b.attributes.map (·.expression) ++ b.blocks.flatMap innerExpressions

end Block

/-- The edges that a resolved `depends_on` attribute names. -/
def Attribute.namedEdges (ctx : ResolutionContext) (a : Attribute) : List Edge :=
  if a.name = "depends_on" then
    match (a.resolve ctx).outcome with
    | .resolved v => (Step.entriesOf v).filterMap fun entry => entry.text? >>= Step.edgeOfText?
    | _ => []
  else []

namespace Step
variable {s s' s'' : Step} {es es' : List Expression} {named named' : List Edge}

/-- The dependencies grow by those of some expressions and by some named edges. -/
structure Gains (s s' : Step) (es : List Expression) (named : List Edge) : Prop where
  addressed : ∀ e ∈ es, e.Addressed
  mem_iff : ∀ edge, edge ∈ s'.dependencies ↔
    edge ∈ s.dependencies ∨ (∃ e ∈ es, edge ∈ e.edges) ∨ edge ∈ named

theorem Gains.of_eq (h : s'.dependencies = s.dependencies) : s.Gains s' [] [] :=
  ⟨fun _ he => (nomatch he), fun edge => by simp [h]⟩

theorem Gains.of_merge {d : DependencySet} (h : s'.dependencies = s.dependencies.merge d)
    (hd : d.IsOf es) : s.Gains s' es [] := by
  refine ⟨hd.addressed, fun edge => ?_⟩
  rw [h, DependencySet.mem_merge, hd.mem_iff]
  simp

theorem Gains.trans (h : s.Gains s' es named) (h' : s'.Gains s'' es' named') :
    s.Gains s'' (es ++ es') (named ++ named') := by
  refine ⟨fun e he => (List.mem_append.1 he).elim (h.addressed e) (h'.addressed e), fun edge => ?_⟩
  rw [h'.mem_iff, h.mem_iff]
  simp only [List.mem_append, or_and_right, exists_or]
  grind

/-- What each element of a list adds is added by all of them. -/
theorem gains_gather {σ α : Type} {f : σ → α → σ × Diagnostics} (step : σ → Step)
    {es : α → List Expression} {named : α → List Edge}
    (h : ∀ state a, (f state a).2.hasErrors = false →
      (step state).Gains (step (f state a).1) (es a) (named a)) (as : List α) {state : σ}
    (accepted : (Diagnostics.gather f state as).2.hasErrors = false) :
    (step state).Gains (step (Diagnostics.gather f state as).1) (as.flatMap es)
      (as.flatMap named) := by
  induction as generalizing state with
  | nil => exact .of_eq rfl
  | cons a as ih =>
    simp only [Diagnostics.gather, Diagnostics.hasErrors_append, Bool.or_eq_false_iff] at accepted
    exact (h state a accepted.1).trans (ih accepted.2)

theorem gains_addEntry (location : Location) (s : Step) (entry : Value)
    (accepted : (addEntry location s entry).2.hasErrors = false) :
    s.Gains (addEntry location s entry).1 [] (entry.text? >>= edgeOfText?).toList := by
  unfold addEntry at accepted ⊢
  split
  · rename_i edge he
    refine ⟨fun _ hm => (nomatch hm), fun other => ?_⟩
    simp [DependencySet.mem_add, he]
  · rename_i he
    simp only [he] at accepted
    cases accepted

theorem gains_storeCommon (s : Step) (name : String) (v : Value) (location : Location)
    (accepted : (s.storeCommon name v location).2.hasErrors = false) :
    s.Gains (s.storeCommon name v location).1 []
      (if name = "depends_on" then
        (entriesOf v).filterMap fun entry => entry.text? >>= edgeOfText? else []) := by
  unfold storeCommon at accepted ⊢
  split
  · exact .of_eq rfl
  · exact .of_eq rfl
  · rw [if_pos rfl]
    have entries := gains_gather id (gains_addEntry location) _ accepted
    rwa [List.flatMap_eq_nil_iff.2 fun _ _ => rfl, ← List.filterMap_eq_flatMap_toList] at entries
  · rename_i hn
    rw [if_neg hn]
    split
    · obtain ⟨_, _, _, rfl⟩ := eq_of_set_commonFields ‹_›
      exact .of_eq rfl
    · exact .of_eq rfl

section
variable {ctx : ResolutionContext} (free : ctx.environment.binds "step" = false)
  (free' : ctx.environment.binds "credential" = false)
include free free'

theorem gains_setCommon (s : Step) (a : Attribute)
    (accepted : (s.setCommon a ctx).2.hasErrors = false) :
    s.Gains (s.setCommon a ctx).1 [a.expression] (a.namedEdges ctx) := by
  have covers : (a.resolve ctx).Covers _ := a.expression.resolve_covers free free' a.location
  have resolved (hf : ∀ ds, (a.resolve ctx).outcome ≠ .failed ds) :
      s.Gains (s.depending (a.resolve ctx).dependencies) [a.expression] [] :=
    .of_merge rfl (covers.isOf hf)
  -- The collection is kept whatever becomes of it.
  have repeated (s : Step) :
      s.Gains (if a.name == "for_each" then { s with forEach := some a.expression } else s) [] [] := by
    split <;> exact .of_eq rfl
  unfold setCommon at accepted ⊢
  unfold Attribute.namedEdges
  dsimp only at accepted ⊢
  cases ho : (a.resolve ctx).outcome with
  | resolved v =>
    simp only [ho] at accepted ⊢
    exact ((resolved fun ds => by simp [ho]).trans (repeated _)).trans
      (gains_storeCommon _ _ v a.location accepted)
  | deferred =>
    simp only [ho] at accepted ⊢
    have kept := (resolved fun ds => by simp [ho]).trans (repeated _)
    simp only [ite_self]
    split
    · exact kept
    · exact kept.trans (.of_eq rfl)
  | failed ds =>
    simp only [ho] at accepted
    rw [covers.hasErrors ds ho] at accepted
    cases accepted

/-- What is merged in for some attributes is what their expressions depend on. -/
theorem Merges.gains {as : List Attribute} (h : Merges ctx as s s') :
    s.Gains s' (as.map (·.expression)) [] := by
  have gathered := DependencySet.gatheredFrom_foldl h.settled
  exact .of_merge (h.dependencies.trans (gathered.merge_eq _).symm) (gathered.isOf free free')

theorem gains_setAttribute (s : Step) (a : Attribute)
    (accepted : (setAttribute ctx s a).2.hasErrors = false) :
    s.Gains (setAttribute ctx s a).1 [a.expression] (a.namedEdges ctx) := by
  unfold setAttribute at accepted ⊢
  split
  · rename_i common
    rw [if_pos common] at accepted
    exact gains_setCommon free free' s a accepted
  · rename_i common
    have own : a.namedEdges ctx = [] := by
      refine if_neg fun hn => common ?_
      rw [hn]
      decide
    rw [if_neg common] at accepted
    rw [own]
    split
    · rename_i kind
      rw [if_pos kind] at accepted
      exact (merges_setOfKind s a.name a accepted).gains free free'
    · rename_i kind
      rw [if_neg kind] at accepted
      cases accepted

theorem gains_setBlockOnce (state : Step × List String) (b : Block)
    (accepted : (setBlockOnce ctx state b).2.hasErrors = false) :
    state.1.Gains (setBlockOnce ctx state b).1.1 b.innerExpressions [] := by
  have same : b.innerExpressions = b.innerAttributes.map (·.expression) := by
    unfold Block.innerExpressions Block.innerAttributes
    split
    · cases b.attribute? "value" <;> rfl
    · rfl
  rw [same]
  -- The place of a body decides what may wait, and binds no further names.
  have place : (b.innerContext ctx).environment = ctx.environment := by
    unfold Block.innerContext
    split <;> rfl
  exact (merges_setBlockOnce state b accepted).gains (place ▸ free) (place ▸ free')

/-- An accepted step waits for what the expressions of its block refer to and for what it names
itself, but not for itself; and every reference names its target. -/
theorem dependencies_ofBlock {b : Block} {pipeline : String} {s : Step}
    (accepted : ofBlock b pipeline ctx = .ok s) :
    (∀ e ∈ b.stepExpressions, e.Addressed) ∧
      ∀ edge, edge ∈ s.dependencies ↔ edge ≠ ⟨.step, s.fullName⟩ ∧
        ((∃ e ∈ b.stepExpressions, edge ∈ e.edges) ∨
          ∃ a ∈ b.attributes, edge ∈ a.namedEdges ctx) := by
  obtain ⟨word, name, kind, -, -, taken, -, rfl⟩ := exists_of_ofBlock accepted
  simp only [takeIn, Diagnostics.hasErrors_append, Bool.or_eq_false_iff] at taken
  have attributes : (start b kind name pipeline).Gains
      ((start b kind name pipeline).setAttributes b ctx).1 _ _ :=
    gains_gather id (gains_setAttribute free free') b.attributes taken.1
  have blocks := gains_gather Prod.fst (gains_setBlockOnce free free') b.blocks taken.2
  have all := attributes.trans blocks
  rw [← List.map_eq_flatMap, List.flatMap_eq_nil_iff.2 fun _ _ => rfl, List.append_nil] at all
  refine ⟨all.addressed, fun edge => ?_⟩
  refine DependencySet.mem_removeStep.trans ?_
  rw [and_comm]
  refine and_congr_right fun _ => ((all.mem_iff edge).trans ?_)
  rw [List.mem_flatMap]
  exact or_iff_right DependencySet.mem_empty

end
end Step
end PipelineResolution
