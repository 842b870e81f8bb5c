import Mathlib.Algebra.Ring.Int.Defs
import Mathlib.Algebra.Ring.Nat
import PipelineResolution.Proofs.Value

/-!
# Whole numbers

A finite number may be equal to an integer, and then to one only. Words are the integers that fit a
signed 64-bit word; the number `2 ^ 63` is next to them and is taken for the largest.
-/
namespace PipelineResolution

theorem quantaPerUnit_pos : 0 < quantaPerUnit := by
  unfold quantaPerUnit
  generalize 1074 = n
  exact Nat.two_pow_pos n

theorem Word.isSigned_iff {k : Int} : Word.isSigned k = true ↔ -2 ^ 63 ≤ k ∧ k ≤ 2 ^ 63 - 1 := by
  have bound : (Word.count 63 : Int) = 2 ^ 63 := by decide
  simp only [Word.isSigned, bound, Bool.and_eq_true, decide_eq_true_eq]
  omega

namespace Number
variable {x : Number} {k l : Int}

/-- Whether the exact value of a number is an integer. -/
inductive Denotes : Number → Int → Prop
  | finite {negative : Bool} {quanta : Nat} {representable : Representable quanta} {k : Int}
      (exact : signedQuanta negative quanta = k * quantaPerUnit) :
      Denotes (.finite negative quanta representable) k

theorem Denotes.unique (hk : x.Denotes k) (hl : x.Denotes l) : k = l := by
  obtain ⟨hk⟩ := hk
  obtain ⟨hl⟩ := hl
  have unit : (quantaPerUnit : Int) ≠ 0 := by
    have := quantaPerUnit_pos
    omega
  exact Int.eq_of_mul_eq_mul_right unit (hk.symm.trans hl)

theorem toInt?_eq_some : x.toInt? = some k ↔ x.Denotes k := by
  cases x with
  | nan | infinite => constructor <;> intro h <;> cases h
  | finite negative quanta representable =>
    by_cases whole : quantaPerUnit ∣ quanta
    · have denoted : (finite negative quanta representable).Denotes
          (signedQuanta negative (quanta / quantaPerUnit)) :=
        .finite (signedQuanta_div_mul negative whole).symm
      simp only [toInt?, if_pos whole, Option.some.injEq]
      exact ⟨fun h => h ▸ denoted, denoted.unique⟩
    · simp only [toInt?, if_neg whole]
      refine iff_of_false (by simp) fun h => whole ⟨k.natAbs, ?_⟩
      obtain ⟨h⟩ := h
      have size : (signedQuanta negative quanta).natAbs = (k * quantaPerUnit).natAbs :=
        congrArg Int.natAbs h
      rw [natAbs_signedQuanta, Int.natAbs_mul, Int.natAbs_natCast] at size
      rw [size, Nat.mul_comm]

/-- A number that denotes an integer is a whole count of units. Its sign is that of the integer,
unless it is a zero. -/
theorem Denotes.exists_eq (h : x.Denotes k) : ∃ negative representable,
    x = .finite negative (k.natAbs * quantaPerUnit) representable ∧
      (k ≠ 0 → negative = decide (k < 0)) := by
  obtain @⟨negative, quanta, representable, _, exact⟩ := h
  have size : quanta = k.natAbs * quantaPerUnit := by
    rw [← natAbs_signedQuanta negative quanta, exact, Int.natAbs_mul, Int.natAbs_natCast]
  rw [← size]
  refine ⟨negative, representable, rfl, fun nonzero => ?_⟩
  have unit : (0 : Int) < quantaPerUnit := Int.natCast_pos.2 quantaPerUnit_pos
  unfold signedQuanta at exact
  by_cases below : k < 0
  · have := Int.mul_neg_of_neg_of_pos below unit
    cases negative with
    | false =>
      rw [if_neg (by decide)] at exact
      omega
    | true => simp [below]
  · have := Int.mul_pos (show 0 < k by omega) unit
    cases negative with
    | false => simp [below]
    | true =>
      rw [if_pos rfl] at exact
      omega

end Number

/-- A word is cut from a number that denotes one, and from the number next to the largest. -/
theorem Value.wordOf_eq_some {x : Number} {k : Int} : wordOf x = some k ↔
    x.Denotes k ∧ (-2 ^ 63 ≤ k ∧ k ≤ 2 ^ 63 - 1) ∨ x.Denotes (2 ^ 63) ∧ k = 2 ^ 63 - 1 := by
  have bound : Word.count 63 = 2 ^ 63 := by decide
  unfold wordOf
  rw [bound]
  cases whole : x.toInt? with
  | none =>
    have none (l : Int) : ¬x.Denotes l := fun h => by
      rw [Number.toInt?_eq_some.2 h] at whole
      cases whole
    simp [none]
  | some l =>
    have denoted := Number.toInt?_eq_some.1 whole
    have only {m : Int} (h : x.Denotes m) : m = l := h.unique denoted
    dsimp only
    split
    · rename_i inside
      simp only [Option.some.injEq]
      constructor
      · rintro rfl
        by_cases top : l = 2 ^ 63
        · subst top
          exact .inr ⟨denoted, by decide⟩
        · have low : min l ((2 ^ 63 : Nat) - 1) = l := by omega
          rw [low]
          exact .inl ⟨denoted, by omega⟩
      · rintro (⟨h, low, high⟩ | ⟨h, rfl⟩)
        · obtain rfl := only h
          omega
        · rw [← only h]
          decide
    · rename_i outside
      refine iff_of_false (by simp) ?_
      rintro (⟨h, low, high⟩ | ⟨h, rfl⟩)
      · obtain rfl := only h
        omega
      · rw [← only h] at outside
        exact absurd (by decide) outside

end PipelineResolution
