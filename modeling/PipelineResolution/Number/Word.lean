/-!
# Words

Integers are held in words of 64 bits, with or without a sign.
-/
namespace PipelineResolution.Word

def count (bits : Nat) : Nat := Nat.pow 2 bits

def isSigned (n : Int) : Bool := -(count 63 : Int) ≤ n && n < count 63

def isUnsigned (n : Int) : Bool := 0 ≤ n && n < count 64

/-- A product of unsigned words, which stops at the largest of them. -/
def saturatingMul (a b : Nat) : Nat := min (a * b) (count 64 - 1)

end PipelineResolution.Word
