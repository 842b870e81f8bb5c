import PipelineResolution.Proofs.Dict
import PipelineResolution.Value.Basic

/-!
# Values in JSON

A value whose numbers are finite is read back from its JSON as an equal one. It need not be the same:
a zero loses its sign, and the number `2 ^ 63` crosses as the largest signed word, which is rounded
to it again.
-/
namespace PipelineResolution

/-- A representable count of quanta is its own nearest. -/
theorem roundQuotient_one {q : Nat} (representable : Representable q) : roundQuotient q 1 = q := by
  obtain ⟨⟨k, hk⟩, -⟩ := representable
  have pos : 0 < spacing q := Nat.two_pow_pos _
  have whole : q / spacing q = k := Nat.div_eq_of_eq_mul_right pos hk
  have rest : q % spacing q = 0 := Nat.mod_eq_zero_of_dvd ⟨k, hk⟩
  have nearest : roundHalfEven q (spacing q) = k := by
    simp only [roundHalfEven, rest, whole, Nat.mul_zero, pos, if_true]
  simp only [roundQuotient, Nat.div_one, Nat.one_mul, nearest]
  rw [Nat.mul_comm, ← hk]

theorem natAbs_signedQuanta (negative : Bool) (q : Nat) : (signedQuanta negative q).natAbs = q := by
  unfold signedQuanta
  split <;> omega

theorem signedQuanta_natAbs (z : Int) : signedQuanta (decide (z < 0)) z.natAbs = z := by
  unfold signedQuanta
  split <;> rename_i h <;> simp at h <;> omega

theorem signedQuanta_div_mul (negative : Bool) {q unit : Nat} (whole : unit ∣ q) :
    signedQuanta negative (q / unit) * unit = signedQuanta negative q := by
  have count : ((q / unit : Nat) : Int) * unit = q := by
    rw [← Int.natCast_mul, Nat.div_mul_cancel whole]
  unfold signedQuanta
  split
  · rw [Int.neg_mul, count]
  · exact count

namespace Number

/-- The whole number of quanta that a number is equal to names that number. -/
theorem equals_ofQuanta (negative : Bool) {q : Nat} (representable : Representable q) :
    (ofQuanta (signedQuanta negative q) 1).equals (.finite negative q representable) = true := by
  have nearest : roundQuotient (signedQuanta negative q).natAbs 1 = q := by
    rw [natAbs_signedQuanta, roundQuotient_one representable]
  have sign : signedQuanta (decide (signedQuanta negative q < 0)) q = signedQuanta negative q := by
    simpa only [natAbs_signedQuanta] using signedQuanta_natAbs (signedQuanta negative q)
  simp only [ofQuanta, nearest, representable.2, dif_pos, equals, sign, beq_self_eq_true]

/-- A whole number is read back from the integer that it is equal to. -/
theorem equals_ofInt {n : Number} {k : Int} (h : n.toInt? = some k) : (ofInt k).equals n = true := by
  cases n with
  | nan | infinite => cases h
  | finite negative q representable =>
    simp only [toInt?] at h
    split at h
    · rename_i whole
      obtain rfl := Option.some.inj h
      rw [ofInt, ofFraction, signedQuanta_div_mul negative whole]
      exact equals_ofQuanta negative representable
    · cases h

/-- The largest signed word is rounded to the next number. -/
theorem ofInt_largestWord : ofInt (Word.count 63 - 1) = ofInt (Word.count 63) := by
  decide +kernel

theorem equals_ofInt_of_wordOf {n : Number} {k : Int} (h : Value.wordOf n = some k) :
    (ofInt k).equals n = true := by
  unfold Value.wordOf at h
  split at h
  · rename_i whole hw
    split at h
    · rename_i inside
      obtain rfl := Option.some.inj h
      by_cases large : whole ≤ Word.count 63 - 1
      · rw [Int.min_eq_left large]
        exact equals_ofInt hw
      · have top : whole = Word.count 63 := by omega
        rw [Int.min_eq_right (by omega), ofInt_largestWord, ← top]
        exact equals_ofInt hw
    · cases h
  · cases h

theorem equals_self {n : Number} (finite : n.isFinite = true) : n.equals n = true := by
  cases n with
  | nan | infinite => cases finite
  | finite => simp only [equals, beq_self_eq_true]

end Number

namespace Value

mutual
/-- Whether all numbers in a value are finite. -/
def isFinite : Value → Bool
  | .null | .bool _ | .string _ => true
  | .number n => n.isFinite
  | .list items => listIsFinite items
  | .map entries => entriesAreFinite entries

def listIsFinite : List Value → Bool
  | [] => true
  | v :: vs => v.isFinite && listIsFinite vs

def entriesAreFinite : List (String × Value) → Bool
  | [] => true
  | (_, v) :: vs => v.isFinite && entriesAreFinite vs
end

theorem equals_ofJson_numberToJson {n : Number} (finite : n.isFinite = true) :
    (ofJson (numberToJson n)).equals (.number n) = true := by
  unfold numberToJson
  cases hw : wordOf n with
  | some k => simp only [ofJson, ofInt, equals, Number.equals_ofInt_of_wordOf hw]
  | none =>
    simp only [finite, if_true, ofJson, equals, Number.equals_self finite]

mutual
/-- A value is read back from its JSON as an equal one. -/
theorem equals_ofJson_toJson : ∀ v : Value, v.isFinite = true → (ofJson v.toJson).equals v = true
  | .null, _ => rfl
  | .bool b, _ => beq_self_eq_true b
  | .number _, finite => equals_ofJson_numberToJson finite
  | .string s, _ => beq_self_eq_true s
  | .list items, finite => listEquals_listOfJson items finite
  | .map entries, finite => entriesEqual_entriesOfJson entries finite

theorem listEquals_listOfJson : ∀ vs : List Value, listIsFinite vs = true →
    listEquals (listOfJson (listToJson vs)) vs = true
  | [], _ => rfl
  | v :: vs, finite => by
    obtain ⟨first, rest⟩ := Bool.and_eq_true_iff.1 finite
    exact Bool.and_eq_true_iff.2 ⟨equals_ofJson_toJson v first, listEquals_listOfJson vs rest⟩

theorem entriesEqual_entriesOfJson : ∀ vs : List (String × Value), entriesAreFinite vs = true →
    entriesEqual (entriesOfJson (entriesToJson vs)) vs = true
  | [], _ => rfl
  | (k, v) :: vs, finite => by
    obtain ⟨first, rest⟩ := Bool.and_eq_true_iff.1 finite
    exact Bool.and_eq_true_iff.2 ⟨Bool.and_eq_true_iff.2 ⟨beq_self_eq_true k,
      equals_ofJson_toJson v first⟩, entriesEqual_entriesOfJson vs rest⟩
end

end Value
end PipelineResolution
