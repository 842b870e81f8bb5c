import PipelineResolution.Resolution.Attribute
import PipelineResolution.Step.Field

/-!
# Retry policies

How often a step is tried again and how long the engine waits between two attempts. Intervals are in
milliseconds. A policy that depends on the result of an attempt is decoded again after each one.
-/
namespace PipelineResolution

structure RetryPolicy where
  /-- The predicate of the block; without one the step is always tried again. -/
  enabled : Option Bool
  maxAttempts : Int
  /-- As written; the rules ask for a known strategy. -/
  strategy : String
  minInterval : Int
  maxInterval : Int
  deriving DecidableEq, Inhabited

namespace RetryPolicy

def ofDefaults (d : RetryDefaults) : RetryPolicy :=
  ⟨none, d.maxAttempts, Keyword.spell d.strategy, d.minInterval, d.maxInterval⟩

def fields : List (Field RetryPolicy) := [
  ⟨"if", .flag, (·.enabled), fun b p => { p with enabled := some b }⟩,
  ⟨"max_attempts", .integer, fun p => some p.maxAttempts, fun n p => { p with maxAttempts := n }⟩,
  ⟨"strategy", .text, fun p => some p.strategy, fun s p => { p with strategy := s }⟩,
  ⟨"min_interval", .integer, fun p => some p.minInterval, fun n p => { p with minInterval := n }⟩,
  ⟨"max_interval", .integer, fun p => some p.maxInterval, fun n p => { p with maxInterval := n }⟩]

def maxAttemptsLimit : Int := 300
def minIntervalLimit : Int := 100000
def maxIntervalLimit : Int := 1000000

def broken (location : Location) (name detail : String) : Diagnostic :=
  (Diagnostic.validation "Invalid retry configuration" detail).about (location.child name)

/-- The bounds that a policy breaks. -/
def check (p : RetryPolicy) (location : Location) : Diagnostics :=
  (if p.maxAttempts ≤ maxAttemptsLimit then [] else
    [broken location "max_attempts" ("max_attempts must be at most " ++ toString maxAttemptsLimit
      ++ ", got " ++ toString p.maxAttempts ++ ".")])
  ++ (if 0 ≤ p.minInterval ∧ p.minInterval ≤ minIntervalLimit then [] else
    [broken location "min_interval" ("min_interval must be between 0 and "
      ++ toString minIntervalLimit ++ " ms, got " ++ toString p.minInterval ++ ".")])
  ++ (if 0 ≤ p.maxInterval ∧ p.maxInterval ≤ maxIntervalLimit then [] else
    [broken location "max_interval" ("max_interval must be between 0 and "
      ++ toString maxIntervalLimit ++ " ms, got " ++ toString p.maxInterval ++ ".")])
  ++ (if p.minInterval < p.maxInterval then [] else
    [broken location "min_interval" ("min_interval (" ++ toString p.minInterval
      ++ ") must be less than max_interval (" ++ toString p.maxInterval ++ ").")])
  ++ match Keyword.parse RetryStrategy p.strategy with
    | .ok _ => []
    | .error e => [broken location "strategy" e.message]

def ofValues (values : Dict Value) (defaults : RetryDefaults) (location : Location) :
    Except Diagnostics RetryPolicy :=
  let (p, ds) := Field.fill fields ["if"] location values (ofDefaults defaults)
  Diagnostics.orValue (ds ++ p.check location) p

/-- The wait before retry number `attempt`: the least interval, times the attempt number for linear
and its square for exponential growth, but no longer than the greatest interval. Products
saturate. -/
def backoff (p : RetryPolicy) (attempt : Nat) : Nat :=
  let least := p.minInterval.toNat
  let greatest := p.maxInterval.toNat
  let n := max attempt 1
  match Keyword.parse RetryStrategy p.strategy with
  | .ok .linear => min (Word.saturatingMul least n) greatest
  | .ok .exponential => min (Word.saturatingMul least (Word.saturatingMul n n)) greatest
  | _ => least

/-- Whether another attempt follows attempt number `attempt`. -/
def retriesAfter (p : RetryPolicy) (attempt : Nat) : Bool :=
  p.enabled != some false && (attempt : Int) < p.maxAttempts

def ofBlock (b : Block) (ctx : ResolutionContext) : Resolution RetryPolicy :=
  let unsupported := b.unsupportedAttributes (Field.names fields)
  if !unsupported.isEmpty then .failed unsupported
  else (b.resolveBody (ctx.within .retry)).refine
    fun values => ofValues values ctx.config.retryDefaults b.location

def evaluate (b : Block) (env : Environment) (defaults : RetryDefaults) :
    Except Diagnostics RetryPolicy :=
  let unsupported := b.unsupportedAttributes (Field.names fields)
  if !unsupported.isEmpty then .error unsupported
  else do ofValues (← b.evaluateBody env) defaults b.location

def toJson (p : RetryPolicy) : Json :=
  Json.ofFields (Dict.field "enabled" Json.bool p.enabled
    ++ [("max_attempts", .int p.maxAttempts), ("strategy", .string p.strategy),
      ("min_interval_ms", .int p.minInterval), ("max_interval_ms", .int p.maxInterval)])

def ofJson? (j : Json) : Option RetryPolicy := do
  let record ← j.record?
    ["enabled", "max_attempts", "strategy", "min_interval_ms", "max_interval_ms"]
  let enabled ← record.optional "enabled" Json.bool?
  let maxAttempts ← record.required "max_attempts" Json.word?
  let strategy ← record.required "strategy" Json.text?
  let minInterval ← record.required "min_interval_ms" Json.word?
  let maxInterval ← record.required "max_interval_ms" Json.word?
  return ⟨enabled, maxAttempts, strategy, minInterval, maxInterval⟩

end RetryPolicy
end PipelineResolution
