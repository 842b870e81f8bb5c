import PipelineResolution.Number.Decimal

/-!
# Characters of number texts

The text of a number consists of digits and a few marks, whatever its layout.
-/
namespace PipelineResolution

theorem Text.notMem_append {s t : String} {c : Char} :
    c ∉ (s ++ t).toList ↔ c ∉ s.toList ∧ c ∉ t.toList := by
  rw [String.toList_append, List.mem_append, not_or]

section
variable {c : Char} (letter : c.isDigit = false)
include letter

theorem notMem_toDigits (n : Nat) : c ∉ Nat.toDigits 10 n := by
  intro hc
  have digit := Nat.isDigit_of_mem_toDigits (by decide) (by decide) hc
  exact absurd (digit.symm.trans letter) (by decide)

theorem notMem_toString (minus : c ≠ '-') (n : Int) : c ∉ (toString n).toList := by
  have digits (n : Nat) : c ∉ (Nat.repr n).toList := by
    rw [Nat.repr, String.toList_ofList]
    exact notMem_toDigits letter n
  cases n with
  | ofNat n => exact digits n
  | negSucc n =>
    change c ∉ ("-" ++ Nat.repr (n + 1)).toList
    rw [String.toList_append, List.mem_append, not_or]
    exact ⟨by simpa using minus, digits (n + 1)⟩

/-- The text of a number holds digits and some marks, besides what its layout adds. -/
theorem notMem_render (mark : c ∉ ['-', '.', 'e']) {layout : Layout}
    (suffix : c ∉ layout.wholeSuffix.toList) (plus : c ∉ layout.plus.toList) {nan infinity : String}
    (hnan : c ∉ nan.toList) (hinfinity : c ∉ infinity.toList) (x : Number) :
    c ∉ (x.render layout nan infinity).toList := by
  have minus : c ≠ '-' := fun h => mark (by simp [h])
  have point : c ≠ '.' := fun h => mark (by simp [h])
  have exponent : c ≠ 'e' := fun h => mark (by simp [h])
  have zero : c ≠ '0' := by
    rintro rfl
    cases letter
  have either {p : Prop} [Decidable p] {a b : String} (ha : c ∉ a.toList) (hb : c ∉ b.toList) :
      c ∉ (if p then a else b).toList := by
    split <;> assumption
  have empty : c ∉ "".toList := by simp
  have sign (s : Bool) : c ∉ (if s then "-" else "").toList := either (by simpa using minus) empty
  have decimal (d : Decimal) : c ∉ (d.render layout).toList := by
    have digits := notMem_toDigits letter d.digits
    have front (n : Nat) : c ∉ (String.ofList ((Nat.toDigits 10 d.digits).take n)).toList := by
      simpa using fun h => digits (List.mem_of_mem_take h)
    have back (n : Nat) : c ∉ (String.ofList ((Nat.toDigits 10 d.digits).drop n)).toList := by
      simpa using fun h => digits (List.mem_of_mem_drop h)
    unfold Decimal.render
    refine either (either ?_ (either ?_ ?_)) ?_
    · simp [zeros, digits, zero, suffix]
    · exact Text.notMem_append.2
        ⟨Text.notMem_append.2 ⟨front _, by simpa using point⟩, back _⟩
    · simp [zeros, digits, zero, point]
    · refine Text.notMem_append.2 ⟨Text.notMem_append.2 ⟨Text.notMem_append.2 ⟨Text.notMem_append.2
        ⟨front 1, either empty ?_⟩, by simpa using exponent⟩, either plus empty⟩,
        notMem_toString letter minus _⟩
      exact Text.notMem_append.2 ⟨by simpa using point, back 1⟩
  cases x with
  | nan => exact hnan
  | infinite n => exact Text.notMem_append.2 ⟨sign n, hinfinity⟩
  | finite s q h => exact Text.notMem_append.2 ⟨sign s, decimal _⟩

end

end PipelineResolution
