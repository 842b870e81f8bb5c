import PipelineResolution.Proofs.Number.Whole

/-!
# Shortest decimals of whole numbers

The shortest decimal of a large whole number is itself whole. Below `2 ^ 53` neighbouring integers
are told apart, so there it is the number; further up it may be any integer that is rounded to the
number.
-/
namespace PipelineResolution

/-- Rounding to 53 significant bits does not go below a power of two. -/
theorem two_pow_le_roundQuotient {p q : Nat} (above : 2 ^ p ≤ q) : 2 ^ p ≤ roundQuotient q 1 := by
  have floor (num den : Nat) : num / den ≤ roundHalfEven num den := by
    simp only [roundHalfEven]
    split
    · exact Nat.le_refl _
    · split <;> omega
  have positive : q ≠ 0 := Nat.ne_of_gt (Nat.lt_of_lt_of_le (Nat.two_pow_pos p) above)
  obtain ⟨t, ht⟩ : ∃ t, t = q.log2 - 52 := ⟨_, rfl⟩
  have step : spacing q = 2 ^ t := by rw [ht]; rfl
  simp only [roundQuotient, Nat.div_one, Nat.one_mul, step]
  refine Nat.le_trans ?_ (Nat.mul_le_mul_right _ (floor q (2 ^ t)))
  by_cases coarse : t ≤ p
  · have split : 2 ^ (p - t) * 2 ^ t = 2 ^ p := by rw [← Nat.pow_add, Nat.sub_add_cancel coarse]
    rw [← split] at above ⊢
    exact Nat.mul_le_mul_right _ ((Nat.le_div_iff_mul_le (Nat.two_pow_pos t)).2 above)
  · have one : 1 ≤ q / 2 ^ t := by
      rw [Nat.le_div_iff_mul_le (Nat.two_pow_pos t), Nat.one_mul]
      exact Nat.le_trans (Nat.pow_le_pow_right (by decide) (by omega)) (Nat.log2_self_le positive)
    calc 2 ^ p ≤ 1 * 2 ^ t := by
          rw [Nat.one_mul]
          exact Nat.pow_le_pow_right (by decide) (by omega)
      _ ≤ _ := Nat.mul_le_mul_right _ one

theorem exists_two_pow_eq_quantaPerUnit : ∃ u, 2 ^ u = quantaPerUnit := by
  unfold quantaPerUnit
  generalize 1074 = u
  exact ⟨u, rfl⟩

theorem mul_quantaPerUnit_ne_zero {k : Nat} (positive : 0 < k) : k * quantaPerUnit ≠ 0 :=
  Nat.ne_of_gt (Nat.mul_pos positive quantaPerUnit_pos)

theorem digitCount_le_of_lt {k : Nat} (small : k < 2 ^ 53) : digitCount k ≤ 16 :=
  (Nat.length_toDigits_le_iff (by decide) (by decide)).2 (Nat.lt_trans small (by decide))

/-- Every integer below `2 ^ 53` is a binary64 number. -/
theorem representable_mul_quantaPerUnit {k : Nat} (small : k < 2 ^ 53) :
    Representable (k * quantaPerUnit) := by
  have bound : 2 ^ 53 * quantaPerUnit < overflowQuanta := by decide +kernel
  have divides : spacing (k * quantaPerUnit) ∣ k * quantaPerUnit := by
    obtain ⟨u, hu⟩ := exists_two_pow_eq_quantaPerUnit
    rw [← hu]
    exact spacing_dvd_of_lt (Nat.le_refl 53) small
  exact ⟨divides, Nat.lt_of_le_of_lt (Nat.mul_le_mul_right _ (Nat.le_of_lt small)) bound⟩

/-- An integer that is rounded to one below `2 ^ 53` is that one. -/
theorem eq_of_roundQuotient {m k : Nat} (small : k < 2 ^ 53)
    (h : roundQuotient (m * quantaPerUnit) 1 = k * quantaPerUnit) : m = k := by
  by_cases fits : m < 2 ^ 53
  · rw [roundQuotient_one (representable_mul_quantaPerUnit fits)] at h
    exact Nat.eq_of_mul_eq_mul_right quantaPerUnit_pos h
  · obtain ⟨u, hu⟩ := exists_two_pow_eq_quantaPerUnit
    have above : 2 ^ 53 * quantaPerUnit ≤ m * quantaPerUnit := Nat.mul_le_mul_right _ (by omega)
    rw [← hu, ← Nat.pow_add] at above
    have kept := two_pow_le_roundQuotient above
    rw [hu, h, Nat.pow_add, hu] at kept
    exact absurd (Nat.le_of_mul_le_mul_right kept quantaPerUnit_pos) (by omega)

namespace Number

theorem quanta_of_ofQuanta {z : Int} {den : Nat} {negative : Bool} {q : Nat}
    {representable : Representable q} (h : ofQuanta z den = .finite negative q representable) :
    roundQuotient z.natAbs den = q := by
  unfold ofQuanta at h
  dsimp only at h
  split at h
  · cases h
    rfl
  · cases h

/-- An integer is read by rounding it. -/
theorem quanta_of_ofInt {z : Int} {negative : Bool} {q : Nat} {representable : Representable q}
    (h : ofInt z = .finite negative q representable) :
    roundQuotient (z.natAbs * quantaPerUnit) 1 = q := by
  rw [ofInt, ofFraction] at h
  have quanta := quanta_of_ofQuanta h
  rwa [Int.natAbs_mul, Int.natAbs_natCast] at quanta

theorem ofQuanta_natCast {q : Nat} (representable : Representable q) :
    ofQuanta q 1 = .finite false q representable := by
  have nearest : roundQuotient (q : Int).natAbs 1 = q := roundQuotient_one representable
  have sign : decide ((q : Int) < 0) = false := decide_eq_false (by omega)
  simp only [ofQuanta, nearest, representable.2, dif_pos, sign]

/-- An integer below `2 ^ 53` is itself a binary64 number. -/
theorem ofInt_natCast {k : Nat} (small : k < 2 ^ 53) : ofInt k =
    .finite false (k * quantaPerUnit) (representable_mul_quantaPerUnit small) := by
  rw [ofInt, ofFraction, ← Int.natCast_mul]
  exact ofQuanta_natCast _

end Number

namespace Decimal
variable {d : Decimal} {n : Nat}

/-- A decimal without fractional digits whose value is a whole number. -/
structure Denotes (d : Decimal) (n : Nat) : Prop where
  whole : 0 ≤ d.exponent
  value : d.digits * 10 ^ d.exponent.toNat = n

theorem exponent_le_stripZeros (d : Decimal) : d.exponent ≤ d.stripZeros.exponent := by
  have strip (count : Nat) (d : Decimal) : d.exponent ≤ (stripZeros.go count d).exponent := by
    induction count generalizing d with
    | zero => exact Int.le_refl _
    | succ count ih =>
      unfold stripZeros.go
      split
      · have := ih ⟨d.digits / 10, d.exponent + 1⟩
        dsimp only at this
        omega
      · exact Int.le_refl _
  exact strip _ d

theorem Denotes.stripZeros (h : d.Denotes n) : d.stripZeros.Denotes n := by
  have strip (count : Nat) {d : Decimal} (h : d.Denotes n) :
      (stripZeros.go count d).Denotes n := by
    induction count generalizing d with
    | zero => exact h
    | succ count ih =>
      unfold stripZeros.go
      split
      · rename_i zero
        obtain ⟨whole, value⟩ := h
        refine ih ⟨by dsimp only; omega, ?_⟩
        have shift : (d.exponent + 1).toNat = d.exponent.toNat + 1 := by omega
        rw [← value, shift, Nat.pow_succ', ← Nat.mul_assoc,
          Nat.div_mul_cancel (Nat.dvd_of_mod_eq_zero zero.2)]
      · exact h
  exact strip _ h

/-- A whole decimal is read by rounding its value. -/
theorem quanta_of_toNumber {digits e : Nat} {negative : Bool} {q : Nat}
    {representable : Representable q} (positive : q ≠ 0)
    (h : (Decimal.mk digits (.ofNat e)).toNumber false = .finite negative q representable) :
    roundQuotient (digits * 10 ^ e * quantaPerUnit) 1 = q := by
  simp only [toNumber] at h
  split at h
  · cases h
    exact absurd rfl positive
  · split at h
    · cases h
    · rw [if_neg (by decide)] at h
      have quanta := Number.quanta_of_ofInt h
      rwa [Int.natAbs_mul, Int.natAbs_natCast, Int.natAbs_natCast] at quanta

theorem denotes_of_readsBack {k : Nat} (positive : 0 < k) (small : k < 2 ^ 53)
    (whole : 0 ≤ d.exponent) (h : d.readsBack (k * quantaPerUnit) = true) : d.Denotes k := by
  obtain ⟨digits, exponent⟩ := d
  cases exponent with
  | negSucc e => exact absurd (Int.negSucc_lt_zero e) (Int.not_lt.2 whole)
  | ofNat e =>
    have quanta := mul_quantaPerUnit_ne_zero positive
    refine ⟨whole, eq_of_roundQuotient small ?_⟩
    generalize k * quantaPerUnit = q at quanta h ⊢
    unfold readsBack at h
    split at h
    · rename_i same
      obtain rfl := beq_iff_eq.1 h
      exact quanta_of_toNumber quanta same
    · cases h

/-- An integer below `2 ^ 53` is read back from its own digits. -/
theorem readsBack_self {k : Nat} (positive : 0 < k) (small : k < 2 ^ 53) :
    (Decimal.mk k 0).readsBack (k * quantaPerUnit) = true := by
  have digits := digitCount_le_of_lt small
  have read : (Decimal.mk k 0).toNumber false = Number.ofInt k := by
    simp only [toNumber]
    rw [if_neg (by omega), if_neg (by omega)]
    simp
  unfold readsBack
  rw [read, Number.ofInt_natCast small]
  exact beq_self_eq_true _

end Decimal

namespace Number
variable {q : Nat} {e : Int} {d : Decimal}

/-- A point that is found lies on the grid and reads back. -/
theorem of_gridPoint? (h : gridPoint? q e = some d) : d.exponent = e ∧ d.readsBack q = true := by
  unfold gridPoint? at h
  dsimp only at h
  split at h
  · rename_i low
    cases h
    exact ⟨rfl, (Bool.and_eq_true_iff.1 low).1⟩
  · split at h
    · rename_i high
      cases h
      exact ⟨rfl, high⟩
    · cases h

/-- Where the grid point below reads back, a point of the grid is found. -/
theorem gridPoint?_ne_none (h : (Decimal.mk (gridFloor q e) e).readsBack q = true) :
    gridPoint? q e ≠ none := by
  unfold gridPoint?
  dsimp only
  rw [h, Bool.true_and]
  split
  · nofun
  · rename_i far
    rw [Bool.or_eq_true, not_or] at far
    have high : (Decimal.mk (gridFloor q e + 1) e).readsBack q = true := by simpa using far.1
    rw [if_pos high]
    nofun

/-- The shortest decimal of a number is found among 17 grids, from the coarsest on. -/
theorem shortest_eq {q : Nat} (positive : q ≠ 0) : ∃ (n : Nat) (d : Decimal), n ≤ 16 ∧
    shortest q = d.stripZeros ∧ d.exponent = leadingExponent q - n ∧
      ∀ m : Nat, m ≤ 16 → gridPoint? q (leadingExponent q - m) ≠ none →
        n ≤ m ∧ d.readsBack q = true := by
  have outside {m : Nat} (hm : m ≤ 16) : m ∈ List.range 17 := List.mem_range.2 (by omega)
  unfold shortest
  rw [if_neg positive]
  dsimp only
  cases found : (List.range 17).findSome? fun (n : Nat) => gridPoint? q (leadingExponent q - n) with
  | none =>
    refine ⟨16, _, Nat.le_refl _, rfl, rfl, fun m hm point => ?_⟩
    exact absurd (List.findSome?_eq_none_iff.1 found m (outside hm)) point
  | some d =>
    obtain ⟨before, n, after, grids, point, coarser⟩ := List.findSome?_eq_some_iff.1 found
    have place : n = before.length := by
      have at_n : (List.range 17)[before.length]? = some n := by rw [grids]; simp
      obtain ⟨_, at_n⟩ := List.getElem?_eq_some_iff.1 at_n
      rw [← at_n, List.getElem_range]
    have last : n ≤ 16 := by
      have : n ∈ List.range 17 := by rw [grids]; simp
      have := List.mem_range.1 this
      omega
    obtain ⟨exponent, reads⟩ := of_gridPoint? point
    refine ⟨n, d, last, rfl, exponent, fun m hm other => ⟨?_, reads⟩⟩
    by_contra above
    have at_m : before[m]? = some m := by
      have kept : (before ++ n :: after)[m]? = before[m]? := List.getElem?_append_left (by omega)
      rw [← kept, ← grids, List.getElem?_range (by omega)]
    exact other (coarser m (List.mem_of_getElem? at_m))

theorem leadingExponent_mul_quantaPerUnit {k : Nat} (positive : 0 < k) :
    leadingExponent (k * quantaPerUnit) = digitCount k - 1 := by
  have whole : quantaPerUnit ≤ k * quantaPerUnit := Nat.le_mul_of_pos_left _ positive
  rw [leadingExponent, if_pos whole, Nat.mul_div_cancel _ quantaPerUnit_pos]

/-- An integer below `2 ^ 53` is its own shortest decimal. -/
theorem shortest_denotes {k : Nat} (small : k < 2 ^ 53) :
    (shortest (k * quantaPerUnit)).Denotes k := by
  by_cases zero : k = 0
  · subst zero
    rw [Nat.zero_mul, shortest, if_pos rfl]
    exact ⟨Int.le_refl 0, rfl⟩
  · have positive : 0 < k := by omega
    have digits := digitCount_le_of_lt small
    obtain ⟨n, d, hn, eq, exponent, first⟩ := shortest_eq (mul_quantaPerUnit_ne_zero positive)
    rw [leadingExponent_mul_quantaPerUnit positive] at exponent first
    have units : gridPoint? (k * quantaPerUnit) 0 ≠ none := by
      apply gridPoint?_ne_none
      have floor : gridFloor (k * quantaPerUnit) 0 = k := by
        change gridFloor (k * quantaPerUnit) (.ofNat 0) = k
        have one : Nat.pow 10 0 = 1 := rfl
        rw [gridFloor, one, Nat.mul_one, Nat.mul_div_cancel _ quantaPerUnit_pos]
      rw [floor]
      exact Decimal.readsBack_self positive small
    have some_digit : 0 < digitCount k := Nat.length_toDigits_pos
    have step : ((digitCount k : Int) - 1 - (digitCount k - 1 : Nat)) = 0 := by omega
    rw [← step] at units
    obtain ⟨below, reads⟩ := first _ (by omega) units
    rw [eq]
    exact (Decimal.denotes_of_readsBack positive small (by omega) reads).stripZeros

/-- From `10 ^ 18` on a shortest decimal has no fractional digits. -/
theorem exponent_shortest {k : Nat} (large : 10 ^ 18 ≤ k) :
    0 ≤ (shortest (k * quantaPerUnit)).exponent := by
  have positive : 0 < k := by omega
  have digits : 18 < digitCount k := by
    by_contra few
    have := (Nat.length_toDigits_le_iff (by decide) (by decide)).1 (Nat.le_of_not_lt few)
    omega
  obtain ⟨n, d, hn, eq, exponent, -⟩ := shortest_eq (mul_quantaPerUnit_ne_zero positive)
  rw [leadingExponent_mul_quantaPerUnit positive] at exponent
  have := d.exponent_le_stripZeros
  rw [eq]
  omega

end Number

/-! ## Texts -/

theorem toString_eq_sign (k : Int) :
    toString k = (if k < 0 then "-" else "") ++ toString k.natAbs := by
  cases k with
  | ofNat n => rfl
  | negSucc n =>
    rw [if_pos (Int.negSucc_lt_zero n)]
    rfl

namespace Decimal
variable {d : Decimal} {n : Nat}

theorem toDigits_mul_ten_pow {m : Nat} (positive : 0 < m) (e : Nat) :
    Nat.toDigits 10 (m * 10 ^ e) = Nat.toDigits 10 m ++ List.replicate e '0' := by
  induction e with
  | zero => simp
  | succ e ih =>
    have shifted : 0 < m * 10 ^ e := Nat.mul_pos positive (Nat.pow_pos (by decide))
    have zero : Nat.toDigits 10 0 = ['0'] := by decide
    have append := Nat.toDigits_append_toDigits (b := 10) (by decide) shifted (by decide : 0 < 10)
    rw [zero, ih, Nat.add_zero, List.append_assoc, ← List.replicate_succ'] at append
    rw [append, Nat.pow_succ', Nat.mul_left_comm]

theorem toList_render_positional (whole : 0 ≤ d.exponent) : (d.render .positional).toList =
    Nat.toDigits 10 d.digits ++ List.replicate d.exponent.toNat '0' := by
  simp [render, Layout.positional, whole, zeros]

theorem isDigit_of_mem_render_positional (whole : 0 ≤ d.exponent) {c : Char}
    (hc : c ∈ (d.render .positional).toList) : c.isDigit = true := by
  rw [toList_render_positional whole, List.mem_append] at hc
  rcases hc with hc | hc
  · exact Nat.isDigit_of_mem_toDigits (by decide) (by decide) hc
  · rw [List.eq_of_mem_replicate hc]
    rfl

/-- With fractional digits a positional text has a decimal point. -/
theorem point_mem_render_positional (fractional : d.exponent < 0) :
    '.' ∈ (d.render .positional).toList := by
  have h : ¬0 ≤ d.exponent := by omega
  simp only [render, Layout.positional, Option.all_none, Bool.and_self, if_true, if_neg h]
  split <;> simp

/-- The positional text of a decimal is the text of an integer just when the decimal is this
integer. -/
theorem render_positional_eq (positive : 0 < n) :
    d.render .positional = toString n ↔ d.Denotes n := by
  rw [Nat.toString_eq_ofList_toDigits, ← String.toList_inj, String.toList_ofList]
  constructor
  · intro same
    have whole : 0 ≤ d.exponent := by
      by_contra fractional
      have point := point_mem_render_positional (Int.lt_of_not_ge fractional)
      rw [same] at point
      have digit := Nat.isDigit_of_mem_toDigits (by decide) (by decide) point
      cases digit
    rw [toList_render_positional whole] at same
    have value := congrArg (Nat.ofDigitChars 10 · 0) same
    refine ⟨whole, ?_⟩
    simpa [Nat.ofDigitChars_append, Nat.ofDigitChars_ten_toDigits,
      Nat.ofDigitChars_replicate_zero, Nat.mul_comm] using value
  · rintro ⟨whole, rfl⟩
    rw [toList_render_positional whole, toDigits_mul_ten_pow (Nat.pos_of_mul_pos_right positive)]

/-- The compact text of a whole decimal shows that it is not meant as an integer. -/
theorem render_compact_ne (whole : 0 ≤ d.exponent) : d.render .compact ≠ d.render .positional := by
  have mark : '.' ∈ (d.render .compact).toList ∨ 'e' ∈ (d.render .compact).toList := by
    simp only [render, if_pos whole]
    split
    · left
      simp [Layout.compact]
    · right
      simp
  intro same
  rw [same] at mark
  rcases mark with mark | mark <;> cases isDigit_of_mem_render_positional whole mark

end Decimal

/-- A number with an integer value is written as the shortest decimal of its magnitude behind its
sign. -/
theorem Number.render_of_denotes {x : Number} {k : Int} (h : x.Denotes k) (nonzero : k ≠ 0)
    (layout : Layout) (nan infinity : String) : x.render layout nan infinity =
      (if k < 0 then "-" else "") ++ (shortest (k.natAbs * quantaPerUnit)).render layout := by
  obtain ⟨negative, representable, rfl, sign⟩ := h.exists_eq
  rw [render, sign nonzero]
  simp only [decide_eq_true_eq]

end PipelineResolution
