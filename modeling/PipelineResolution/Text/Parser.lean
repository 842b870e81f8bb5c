import PipelineResolution.Reading
import PipelineResolution.Text.Cut

/-!
# Reading from the front of a text
-/
namespace PipelineResolution.Text

abbrev Parser (α : Type) : Type := Reading (List Char) α

namespace Parser
variable {σ : Type} [Input σ Char]

def char (c : Char) : Reading σ Unit := do
  let _ ← Reading.satisfy (· == c)

def text (expected : String) : Reading σ Unit := fun s =>
  let cs := expected.toList
  if cs.isPrefixOf (Input.ahead s) then some ((), Input.skip cs.length s) else none

/-- A number of exactly so many hexadecimal digits. -/
def hexNumber (width : Nat) : Reading σ Nat :=
  (List.range width).foldlM (fun n _ => do
    let c ← Reading.satisfy fun c => (hexDigit? c).isSome
    return n * 16 + (hexDigit? c).getD 0) 0

def codePoint (width : Nat) : Reading σ Char := do
  let n ← hexNumber width
  if n.isValidChar then return Char.ofNat n else Reading.fail

end Parser
end PipelineResolution.Text
