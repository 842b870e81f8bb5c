import PipelineResolution.Text.Cut
import PipelineResolution.Value.Basic

/-!
# Durations

A duration is a whole count of milliseconds, or digits with at most one unit after them. Counts stop
at the largest unsigned 64-bit word.
-/
namespace PipelineResolution

inductive DurationError where
  | fraction (n : Number)
  | malformed (text : String)
  | unknownUnit (unit text : String)
  | notADuration (typeName : String)

def DurationError.message : DurationError → String
  | .fraction n =>
    (Value.number n).display ++ " is not a whole, non-negative number of milliseconds"
  | .malformed text => "invalid duration \"" ++ text ++ "\""
  | .unknownUnit unit text =>
    "invalid duration unit \"" ++ unit ++ "\" in \"" ++ text ++ "\", expected ms, s, m or h"
  | .notADuration typeName => "a duration must be a number or string, got " ++ typeName

namespace Duration

/-- The longest duration, in milliseconds. -/
def limit : Nat := Word.count 64 - 1

/-- Milliseconds in a unit. -/
def unitSize? : String → Option Nat
  | "" | "ms" => some 1
  | "s" => some 1000
  | "m" => some 60000
  | "h" => some 3600000
  | _ => none

/-- The milliseconds that a text names. -/
def ofText (s : String) : Except DurationError Nat :=
  let text := Text.trimChars s.toList
  let unit := String.ofList (Text.trimChars (text.dropWhile Char.isDigit))
  match Text.digitsToNat? (text.takeWhile Char.isDigit) with
  | none => .error (.malformed (String.ofList text))
  | some amount =>
    if limit < amount then .error (.malformed (String.ofList text))
    else match unitSize? unit with
      | some size => .ok (min (amount * size) limit)
      | none => .error (.unknownUnit unit (String.ofList text))

def ofValue : Value → Except DurationError Nat
  | .number n =>
    match n.toInt? with
    | some k => if 0 ≤ k then .ok (min k.toNat limit) else .error (.fraction n)
    | none => .error (.fraction n)
  | .string s => ofText s
  | v => .error (.notADuration v.typeName)

end Duration
end PipelineResolution
