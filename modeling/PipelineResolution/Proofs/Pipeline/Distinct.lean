import PipelineResolution.Pipeline.Basic
import PipelineResolution.Proofs.Failing

/-!
# The steps of a pipeline have distinct names

A decoded pipeline takes up a step only under a full name that is free, so a full name stands for
one step.
-/
namespace PipelineResolution.Pipeline
variable {p : Pipeline} {ctx : ResolutionContext}

/-- The steps are told apart by their full names. -/
def Distinct (p : Pipeline) : Prop := (p.steps.map Step.fullName).Nodup

instance (p : Pipeline) : Decidable p.Distinct :=
  inferInstanceAs (Decidable (p.steps.map Step.fullName).Nodup)

/-- A name that no member has can be added. -/
theorem nodup_names_append {α : Type} {name : α → String} {as : List α} {a : α}
    (h : (as.map name).Nodup) (free : (as.find? (name · == name a)).isSome = false) :
    ((as ++ [a]).map name).Nodup := by
  have hn : name a ∉ as.map name := by
    intro hm
    obtain ⟨other, ho, he⟩ := List.mem_map.1 hm
    rw [Option.isSome_eq_false_iff, Option.isNone_iff_eq_none, List.find?_eq_none] at free
    exact free other ho (beq_iff_eq.2 he)
  rw [List.map_append, List.nodup_append]
  refine ⟨h, by simp, fun found hm other ho he => hn ?_⟩
  obtain rfl := List.mem_singleton.1 ho
  exact he ▸ hm

theorem distinct_declare {α : Type} (h : p.Distinct) (what : String) (b : Block)
    (decoded : Except Diagnostics α) (name : α → String) (taken : String → Bool)
    {add : α → Pipeline} (hadd : ∀ a, taken (name a) = false → (add a).Distinct) :
    (p.declare what b decoded name taken add).1.Distinct := by
  unfold declare
  split
  · split
    · exact h
    · exact hadd _ (Bool.eq_false_iff.2 ‹_›)
  · exact h

theorem distinct_addStep (h : p.Distinct) {s : Step} (free : (p.step? s.fullName).isSome = false) :
    { p with steps := p.steps ++ [s] }.Distinct :=
  nodup_names_append h free

theorem distinct_addBlock (h : p.Distinct) (b : Block) : (addBlock ctx p b).1.Distinct := by
  unfold addBlock
  split
  · exact distinct_declare h _ _ _ _ _ fun _ _ => h
  · exact distinct_declare h _ _ _ _ _ fun _ free => distinct_addStep h free
  · exact distinct_declare h _ _ _ _ _ fun _ _ => h
  · exact h

theorem distinct_setAttribute (h : p.Distinct) (a : Attribute) :
    (setAttribute ctx p a).1.Distinct := by
  unfold setAttribute
  dsimp only
  split
  · split <;> exact h
  · split <;> exact h
  · exact h

/-- What holds of a pipeline without contents, and is kept by each attribute and inner block, holds
of a decoded pipeline. -/
theorem ofBlock_keeps {I : Pipeline → Prop} {b : Block} (h : ofBlock b ctx = .ok p)
    (empty : ∀ name location, I { name, location })
    (described : ∀ p a, I p → I (setAttribute ctx p a).1)
    (declared : ∀ p b, I p → I (addBlock ctx p b).1) : I p := by
  unfold ofBlock at h
  split at h
  · cases h
  · dsimp only at h
    split at h
    · cases h
    · rename_i name _ accepted
      obtain ⟨-, rfl⟩ := Diagnostics.orValue_eq_ok.1 h
      rw [Bool.not_eq_true] at accepted
      simp only [Diagnostics.hasErrors_append, Bool.or_eq_false_iff] at accepted
      have attributes := Diagnostics.gather_preserves (I := I)
        (fun p a h _ => described p a h) b.attributes (empty name b.location) accepted.1.2
      exact Diagnostics.gather_preserves (I := I) (fun p b h _ => declared p b h) b.blocks attributes
        accepted.2

theorem distinct_ofBlock {b : Block} (h : ofBlock b ctx = .ok p) : p.Distinct :=
  ofBlock_keeps h (fun _ _ => List.nodup_nil) (fun _ a h => distinct_setAttribute h a)
    fun _ b h => distinct_addBlock h b

end PipelineResolution.Pipeline
