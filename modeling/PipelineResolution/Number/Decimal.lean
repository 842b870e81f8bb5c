import PipelineResolution.Number.Basic

/-!
# Decimal texts of binary64 numbers

`Decimal.toNumber` reads a decimal and `Number.shortest` finds the decimal with the fewest digits
that reads back, the nearest one of these. A `Layout` says which exponents are written without an
exponent part and what follows a whole number.
-/
namespace PipelineResolution

/-- The non-negative number `digits * 10 ^ exponent`. -/
structure Decimal where
  digits : Nat
  exponent : Int
  deriving DecidableEq

def digitCount (n : Nat) : Nat := (Nat.toDigits 10 n).length

namespace Decimal

/-- The binary64 number nearest to a decimal. Outside the exponents of the format the result is
known without computing the power of ten. -/
def toNumber (d : Decimal) (negative : Bool) : Number :=
  let size := (digitCount d.digits : Int) + d.exponent
  let signed : Int := if negative then -(d.digits : Int) else d.digits
  if d.digits = 0 ∨ size < -330 then .zero negative
  else if 310 < size then .infinite negative
  else match d.exponent with
    | .ofNat e => .ofInt (signed * Nat.pow 10 e)
    | .negSucc e => .ofFraction signed (Nat.pow 10 (e + 1))

/-- Whether a decimal is read as `q` quanta. -/
def readsBack (d : Decimal) (q : Nat) : Bool :=
  match d.toNumber false with
  | .finite _ k _ => k == q
  | _ => false

/-- The same decimal without trailing zeros in its digits. -/
def stripZeros (d : Decimal) : Decimal := go (digitCount d.digits) d
where
  go : Nat → Decimal → Decimal
    | 0, d => d
    | n + 1, d =>
      if d.digits ≠ 0 ∧ d.digits % 10 = 0 then go n ⟨d.digits / 10, d.exponent + 1⟩ else d

end Decimal

structure Layout where
  /-- The decimal point is written when it lies more than this many places from the first digit. -/
  lowestPoint : Option Int
  /-- The decimal point is written when it lies at most this many places from the first digit. -/
  highestPoint : Option Int
  /-- Written after a number without fractional digits. -/
  wholeSuffix : String
  /-- Written before an exponent that is not negative. -/
  plus : String

/-- No exponent part ever; whole numbers end with their last digit. -/
def Layout.positional : Layout := ⟨none, none, "", ""⟩

/-- An exponent part outside `1e-5 .. 1e16`; whole numbers end in `.0`. -/
def Layout.compact : Layout := ⟨some (-5), some 16, ".0", ""⟩

/-- The compact layout with a sign on every exponent. -/
def Layout.signed : Layout := { Layout.compact with plus := "+" }

def zeros (n : Nat) : String := String.ofList (List.replicate n '0')

def Decimal.render (d : Decimal) (layout : Layout) : String :=
  let text := Nat.toDigits 10 d.digits
  let length : Int := text.length
  let point := length + d.exponent
  if layout.lowestPoint.all (· < point) && layout.highestPoint.all (point ≤ ·) then
    if 0 ≤ d.exponent then String.ofList text ++ zeros d.exponent.toNat ++ layout.wholeSuffix
    else if 0 < point then
      String.ofList (text.take point.toNat) ++ "." ++ String.ofList (text.drop point.toNat)
    else "0." ++ zeros (-point).toNat ++ String.ofList text
  else
    let fraction := String.ofList (text.drop 1)
    String.ofList (text.take 1) ++ (if fraction.isEmpty then "" else "." ++ fraction)
      ++ "e" ++ (if 0 < point then layout.plus else "") ++ toString (point - 1)

namespace Number

/-- The power of ten at the first digit of a magnitude of `q` quanta. -/
def leadingExponent (q : Nat) : Int :=
  if quantaPerUnit ≤ q then digitCount (q / quantaPerUnit) - 1
  else -(digitCount ((quantaPerUnit + q - 1) / q - 1) : Int)

/-- The decimal grid point with step `10 ^ exponent` at or below `q` quanta, as a multiple. -/
def gridFloor (q : Nat) : Int → Nat
  | .ofNat e => q / (quantaPerUnit * Nat.pow 10 e)
  | .negSucc e => q * Nat.pow 10 (e + 1) / quantaPerUnit

/-- Distances of the two grid points around `q` quanta, on a common scale. -/
def gridErrors (q c : Nat) : Int → Nat × Nat
  | .ofNat e =>
    let step := quantaPerUnit * Nat.pow 10 e
    (q - c * step, (c + 1) * step - q)
  | .negSucc e =>
    let scaled := q * Nat.pow 10 (e + 1)
    (scaled - c * quantaPerUnit, (c + 1) * quantaPerUnit - scaled)

/-- Of the grid points around `q` quanta that read back as `q` quanta, the nearest one; of two
equally near the one with an even last digit. -/
def gridPoint? (q : Nat) (exponent : Int) : Option Decimal :=
  let c := gridFloor q exponent
  let errors := gridErrors q c exponent
  let low := (Decimal.mk c exponent).readsBack q
  let high := (Decimal.mk (c + 1) exponent).readsBack q
  let lowIsNearer := errors.1 < errors.2 || (errors.1 == errors.2 && c % 2 == 0)
  if low && (!high || lowIsNearer) then some ⟨c, exponent⟩
  else if high then some ⟨c + 1, exponent⟩
  else none

/-- The decimal with the fewest digits that reads back as `q` quanta; 17 digits always do. -/
def shortest (q : Nat) : Decimal :=
  if q = 0 then ⟨0, 0⟩
  else
    let top := leadingExponent q
    let found := (List.range 17).findSome? fun (n : Nat) => gridPoint? q (top - n)
    (found.getD ⟨gridFloor q (top - 16), top - 16⟩).stripZeros

/-- The text of a number in a layout, with the given texts for what has no digits. -/
def render (layout : Layout) (nan infinity : String) : Number → String
  | .nan => nan
  | .infinite n => (if n then "-" else "") ++ infinity
  | .finite s q _ => (if s then "-" else "") ++ (shortest q).render layout

/-- Reads `digits[.digits][e[sign]digits]`, with at least one digit before the exponent part. -/
def ofText? (text : List Char) : Option Number :=
  let (negative, text) := match text with
    | '-' :: r => (true, r)
    | '+' :: r => (false, r)
    | r => (false, r)
  let whole := text.takeWhile Char.isDigit
  let rest := text.dropWhile Char.isDigit
  let (fraction, rest) := match rest with
    | '.' :: r => (r.takeWhile Char.isDigit, r.dropWhile Char.isDigit)
    | r => ([], r)
  let value (ds : List Char) : Nat := ds.foldl (fun n c => n * 10 + (c.toNat - '0'.toNat)) 0
  if whole.isEmpty && fraction.isEmpty then none
  else
    let scaled (exponent : Int) : Number :=
      (Decimal.mk (value (whole ++ fraction)) (exponent - fraction.length)).toNumber negative
    match rest with
    | [] => some (scaled 0)
    | e :: r =>
      let (down, ds) := match r with
        | '-' :: r => (true, r)
        | '+' :: r => (false, r)
        | r => (false, r)
      if (e == 'e' || e == 'E') && !ds.isEmpty && ds.all Char.isDigit then
        some (scaled (if down then -(value ds : Int) else value ds))
      else none

end Number
end PipelineResolution
