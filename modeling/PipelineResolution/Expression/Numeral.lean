import PipelineResolution.Number.Decimal
import PipelineResolution.Number.Word

/-!
# Numbers in expressions

A numeral is unsigned, signed or a binary64 number. Two integers of one kind are combined and
compared exactly, everything else in binary64. An integer that is read or converted is signed only
when it is negative; a sum or remainder of signed numbers stays signed.

Failing arithmetic is left out. Sums, differences and products are those of unbounded integers, also
where they exceed a 64-bit word, and the remainder of an integer by zero is that integer.
-/
namespace PipelineResolution

inductive Numeral where
  | unsigned (n : Nat)
  | signed (n : Int)
  | float (x : Number)
  deriving DecidableEq, Inhabited

namespace Numeral

/-- An integer, signed when it is negative. -/
def ofInt (n : Int) : Numeral := if n < 0 then .signed n else .unsigned n.toNat

/-- A whole number of the signed or the unsigned 64-bit range becomes an integer. -/
def ofNumber (x : Number) : Numeral :=
  match x.toInt? with
  | some n => if -(Word.count 63 : Int) ≤ n ∧ n < Word.count 64 then ofInt n else .float x
  | none => .float x

def toNumber : Numeral → Number
  | .unsigned n => .ofInt n
  | .signed n => .ofInt n
  | .float x => x

private def combine (unsigned : Nat → Nat → Numeral) (signed : Int → Int → Numeral)
    (rounded : Number → Number → Number) : Numeral → Numeral → Numeral
  | .unsigned m, .unsigned n => unsigned m n
  | .signed m, .signed n => signed m n
  | a, b => ofNumber (rounded a.toNumber b.toNumber)

def add : Numeral → Numeral → Numeral :=
  combine (fun m n => .unsigned (m + n)) (fun m n => .signed (m + n)) Number.add

def sub : Numeral → Numeral → Numeral :=
  combine (fun m n => ofInt (m - n)) (fun m n => ofInt (m - n)) Number.sub

def mul : Numeral → Numeral → Numeral :=
  combine (fun m n => .unsigned (m * n)) (fun m n => ofInt (m * n)) Number.mul

/-- Division is always done in binary64. -/
def div (a b : Numeral) : Numeral := ofNumber (a.toNumber.div b.toNumber)

/-- The remainder has the sign of the dividend. -/
def rem : Numeral → Numeral → Numeral :=
  combine (fun m n => .unsigned (m % n)) (fun m n => .signed (m.tmod n)) Number.rem

/-- The opposite number; one below the signed 64-bit range is a binary64 number. -/
def neg : Numeral → Numeral
  | .unsigned n => if n ≤ Word.count 63 then ofInt (-n) else .float (Number.ofInt n).neg
  | .signed n => ofInt (-n)
  | .float x => .float x.neg

private def compare (unsigned : Nat → Nat → Bool) (signed : Int → Int → Bool)
    (rounded : Number → Number → Bool) : Numeral → Numeral → Bool
  | .unsigned m, .unsigned n => unsigned m n
  | .signed m, .signed n => signed m n
  | a, b => rounded a.toNumber b.toNumber

def lt : Numeral → Numeral → Bool := compare (· < ·) (· < ·) Number.lt

def le : Numeral → Numeral → Bool := compare (· ≤ ·) (· ≤ ·) Number.le

def equals : Numeral → Numeral → Bool := compare (· == ·) (· == ·) Number.equals

/-- The position a numeral stands for as an index. -/
def index? : Numeral → Option Nat
  | .unsigned n => some n
  | .signed n => if 0 ≤ n then some n.toNat else none
  | .float _ => none

def display : Numeral → String
  | .unsigned n => toString n
  | .signed n => toString n
  | .float x => x.render .compact "NaN" "inf"

end Numeral
end PipelineResolution
