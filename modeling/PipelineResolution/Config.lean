import PipelineResolution.Keyword
import PipelineResolution.Document.Toml

/-!
# Configuration of the resolver

Every setting has a default, so the empty configuration is one. A configuration is read from TOML
text or from JSON, with unknown settings left aside.
-/
namespace PipelineResolution

/-- What a `retry` block falls back to for the attributes it leaves out. Intervals are in
milliseconds. -/
structure RetryDefaults where
  maxAttempts : Int := 3
  strategy : RetryStrategy := .constant
  minInterval : Int := 1000
  maxInterval : Int := 10000
  deriving DecidableEq, Inhabited

structure ResolverConfig where
  /-- Also recognise unknown variables by the wording of untyped diagnostics. -/
  matchDiagnosticText : Bool := true
  /-- The file named in the locations of decoded blocks. -/
  file : Option String := none
  retryDefaults : RetryDefaults := {}
  deriving DecidableEq, Inhabited

def RetryDefaults.toJson (d : RetryDefaults) : Json :=
  Json.ofFields [("max_attempts", .int d.maxAttempts), ("strategy", Keyword.toJson d.strategy),
    ("min_interval_ms", .int d.minInterval), ("max_interval_ms", .int d.maxInterval)]

/-- Reads the defaults from a document in which a strategy is written in a given way. -/
def RetryDefaults.ofDocument? (strategy? : Json → Option RetryStrategy) (j : Json) :
    Option RetryDefaults := do
  let fields ← j.record? ["max_attempts", "strategy", "min_interval_ms", "max_interval_ms"]
  let default : RetryDefaults := {}
  let maxAttempts ← fields.defaulted "max_attempts" default.maxAttempts Json.word?
  let strategy ← fields.defaulted "strategy" default.strategy strategy?
  let minInterval ← fields.defaulted "min_interval_ms" default.minInterval Json.word?
  let maxInterval ← fields.defaulted "max_interval_ms" default.maxInterval Json.word?
  return ⟨maxAttempts, strategy, minInterval, maxInterval⟩

namespace ResolverConfig

def toJson (c : ResolverConfig) : Json :=
  Json.ofFields ([("match_diagnostic_text", .bool c.matchDiagnosticText)]
    ++ Dict.field "filename" Json.string c.file ++ [("retry_defaults", c.retryDefaults.toJson)])

def ofDocument? (strategy? : Json → Option RetryStrategy) (j : Json) : Option ResolverConfig := do
  let fields ← j.record? ["match_diagnostic_text", "filename", "retry_defaults"]
  let matchDiagnosticText ← fields.defaulted "match_diagnostic_text" true Json.bool?
  let file ← fields.optional "filename" Json.text?
  let retryDefaults ← fields.defaulted "retry_defaults" {} (RetryDefaults.ofDocument? strategy?)
  return ⟨matchDiagnosticText, file, retryDefaults⟩

def ofJson? : Json → Option ResolverConfig := ofDocument? (Keyword.ofJson? RetryStrategy)

def ofToml? (s : String) : Option ResolverConfig :=
  Toml.read? s >>= ofDocument? (Keyword.ofToml? RetryStrategy)

end ResolverConfig
end PipelineResolution
