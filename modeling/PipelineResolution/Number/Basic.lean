/-!
# Binary64 numbers, exactly

A finite number is a whole count of quanta, a quantum being the least positive binary64 value
`2 ^ -1074`. Addition, comparison and the remainder are then integer operations, and every other
operation is one exact quotient followed by one rounding. `representable_roundQuotient` says that
rounding lands on a binary64 number.
-/
namespace PipelineResolution

/-- Quanta in the number one. -/
def quantaPerUnit : Nat := Nat.pow 2 1074

/-- The first count of quanta beyond the finite range, `2 ^ 1024` in units. -/
def overflowQuanta : Nat := Nat.pow 2 2098

theorem overflowQuanta_pos : 0 < overflowQuanta := by
  unfold overflowQuanta
  generalize 2098 = n
  exact Nat.two_pow_pos n

/-- Distance between neighbouring binary64 numbers at `q` quanta: 53 significant bits. -/
def spacing (q : Nat) : Nat := Nat.pow 2 (q.log2 - 52)

/-- A count of quanta that is the magnitude of a finite binary64 number. -/
def Representable (q : Nat) : Prop := spacing q ∣ q ∧ q < overflowQuanta

instance (q : Nat) : Decidable (Representable q) := inferInstanceAs (Decidable (_ ∧ _))

/-- The whole number nearest to `num / den`; a tie goes to the even neighbour. -/
def roundHalfEven (num den : Nat) : Nat :=
  let q := num / den
  let r := num % den
  if 2 * r < den then q else if den < 2 * r then q + 1 else q + q % 2

/-- `num / den` rounded to 53 significant bits. -/
def roundQuotient (num den : Nat) : Nat :=
  let s := spacing (num / den)
  roundHalfEven num (den * s) * s

theorem roundHalfEven_le (num den : Nat) : roundHalfEven num den ≤ num / den + 1 := by
  unfold roundHalfEven
  dsimp only
  split
  · omega
  · split
    · omega
    · have := Nat.mod_lt (num / den) (by decide : 0 < 2)
      omega

theorem spacing_dvd_of_lt {m p t : Nat} (hp : p ≤ 53) (h : m < Nat.pow 2 p) :
    spacing (m * Nat.pow 2 t) ∣ m * Nat.pow 2 t := by
  refine Nat.dvd_trans ?_ (Nat.dvd_mul_left (Nat.pow 2 t) m)
  refine Nat.pow_dvd_pow 2 ?_
  by_cases hz : m * Nat.pow 2 t = 0
  · rw [hz]
    simp
  · have hlt : m * Nat.pow 2 t < Nat.pow 2 (p + t) :=
      Nat.lt_of_lt_of_eq (Nat.mul_lt_mul_of_pos_right h (Nat.two_pow_pos t)) (Nat.pow_add 2 p t).symm
    have := (Nat.log2_lt hz).2 hlt
    omega

theorem spacing_dvd_two_pow (p t : Nat) :
    spacing (Nat.pow 2 p * Nat.pow 2 t) ∣ Nat.pow 2 p * Nat.pow 2 t := by
  have h : Nat.pow 2 p * Nat.pow 2 t = Nat.pow 2 (p + t) := (Nat.pow_add 2 p t).symm
  have hlog : (Nat.pow 2 (p + t)).log2 = p + t := Nat.log2_two_pow
  rw [h]
  refine Nat.pow_dvd_pow 2 ?_
  rw [hlog]
  exact Nat.sub_le _ _

/-- A rounded quotient has no more than 53 significant bits. -/
theorem spacing_dvd_roundQuotient (num den : Nat) :
    spacing (roundQuotient num den) ∣ roundQuotient num den := by
  obtain ⟨p, hp⟩ : ∃ p, p = 53 := ⟨53, rfl⟩
  unfold roundQuotient
  dsimp only
  generalize hq : num / den = q
  have hs : spacing q = Nat.pow 2 (q.log2 - 52) := rfl
  rw [hs]
  generalize ht : q.log2 - 52 = t
  have hdiv : num / (den * Nat.pow 2 t) < Nat.pow 2 p := by
    rw [← Nat.div_div_eq_div_mul, hq]
    have hpos : 0 < Nat.pow 2 t := Nat.two_pow_pos t
    have hadd : Nat.pow 2 p * Nat.pow 2 t = Nat.pow 2 (p + t) := (Nat.pow_add 2 p t).symm
    rw [Nat.div_lt_iff_lt_mul hpos, hadd]
    refine Nat.lt_of_lt_of_le Nat.lt_log2_self (Nat.pow_le_pow_right (by decide) ?_)
    omega
  have hle := roundHalfEven_le num (den * Nat.pow 2 t)
  by_cases hlt : roundHalfEven num (den * Nat.pow 2 t) < Nat.pow 2 p
  · exact spacing_dvd_of_lt (Nat.le_of_eq hp) hlt
  · have heq : roundHalfEven num (den * Nat.pow 2 t) = Nat.pow 2 p := by omega
    rw [heq]
    exact spacing_dvd_two_pow p t

theorem representable_roundQuotient {num den : Nat} (h : roundQuotient num den < overflowQuanta) :
    Representable (roundQuotient num den) :=
  ⟨spacing_dvd_roundQuotient num den, h⟩

/-- A binary64 number: not a number, an infinity, or an exact count of quanta with a sign. -/
inductive Number where
  | nan
  | infinite (negative : Bool)
  | finite (negative : Bool) (quanta : Nat) (representable : Representable quanta)
  deriving DecidableEq

def signedQuanta (negative : Bool) (quanta : Nat) : Int :=
  if negative then -(quanta : Int) else quanta

namespace Number

def zero (negative : Bool) : Number :=
  .finite negative 0 ⟨Nat.dvd_zero _, overflowQuanta_pos⟩

/-- The number nearest to `num / den` quanta, an infinity when that is out of range. -/
def ofQuanta (num : Int) (den : Nat) : Number :=
  let m := roundQuotient num.natAbs den
  if h : m < overflowQuanta then .finite (num < 0) m (representable_roundQuotient h)
  else .infinite (num < 0)

def ofFraction (num : Int) (den : Nat) : Number := ofQuanta (num * quantaPerUnit) den

def ofInt (n : Int) : Number := ofFraction n 1

def ofNat (n : Nat) : Number := ofInt n

instance : Inhabited Number := ⟨zero false⟩

def isFinite : Number → Bool
  | .finite .. => true
  | _ => false

/-- The integer a finite number is exactly equal to, if there is one. -/
def toInt? : Number → Option Int
  | .finite s q _ =>
    if quantaPerUnit ∣ q then some (signedQuanta s (q / quantaPerUnit)) else none
  | _ => none

def neg : Number → Number
  | .nan => .nan
  | .infinite s => .infinite (!s)
  | .finite s q h => .finite (!s) q h

def add : Number → Number → Number
  | .finite s a _, .finite t b _ => ofQuanta (signedQuanta s a + signedQuanta t b) 1
  | .finite .., y => y
  | .infinite n, .infinite m => if n = m then .infinite n else .nan
  | .infinite n, .finite .. => .infinite n
  | .infinite _, .nan => .nan
  | .nan, _ => .nan

def sub (x y : Number) : Number := x.add y.neg

/-- Whether a number has the sign of those below zero. -/
def isNegative : Number → Bool
  | .finite s _ _ => s
  | .infinite s => s
  | .nan => false

def isZero : Number → Bool
  | .finite _ q _ => q == 0
  | _ => false

def mul : Number → Number → Number
  | .finite s a _, .finite t b _ => ofQuanta (signedQuanta (s != t) (a * b)) quantaPerUnit
  | .nan, _ => .nan
  | _, .nan => .nan
  | x, y => if x.isZero || y.isZero then .nan else .infinite (x.isNegative != y.isNegative)

/-- Division; a zero divisor gives an infinity, or no number for `0 / 0`. -/
def div : Number → Number → Number
  | .finite s a _, .finite t b _ =>
    if b = 0 then if a = 0 then .nan else .infinite (s != t)
    else ofQuanta (signedQuanta (s != t) (a * quantaPerUnit)) b
  | .nan, _ => .nan
  | _, .nan => .nan
  | .infinite _, .infinite _ => .nan
  | .infinite s, y => .infinite (s != y.isNegative)
  | x@(.finite ..), .infinite s => zero (x.isNegative != s)

/-- The remainder of the quotient truncated toward zero: it has the sign of the dividend. -/
def rem : Number → Number → Number
  | .finite s a _, .finite _ b _ => if b = 0 then .nan else ofQuanta (signedQuanta s (a % b)) 1
  | x@(.finite ..), .infinite _ => x
  | _, _ => .nan

/-- `x < y`; no number is below or above anything. -/
def lt : Number → Number → Bool
  | .finite s a _, .finite t b _ => signedQuanta s a < signedQuanta t b
  | .infinite true, .finite .. => true
  | .infinite true, .infinite false => true
  | .finite .., .infinite false => true
  | _, _ => false

/-- Numeric equality: the two zeros are equal, and not a number differs even from itself. -/
def equals : Number → Number → Bool
  | .finite s a _, .finite t b _ => signedQuanta s a == signedQuanta t b
  | .infinite n, .infinite m => n == m
  | _, _ => false

def le (x y : Number) : Bool := x.lt y || x.equals y

end Number
end PipelineResolution
