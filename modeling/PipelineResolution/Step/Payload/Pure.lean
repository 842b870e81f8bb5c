import PipelineResolution.Duration
import PipelineResolution.Step.Payload.Basic

/-!
# Payloads of steps that touch nothing outside

Pauses and computed values.
-/
namespace PipelineResolution

structure Sleep where
  duration : Option Value := none

instance : Payload Sleep where
  empty := {}
  fields := [⟨"duration", .duration, (·.duration), fun v _ => ⟨some v⟩⟩]
  missing? p := Payload.firstUnset [("duration", p.duration.isSome)]
  check p location :=
    match p.duration.map Duration.ofValue with
    | some (.error e) =>
      [Payload.broken location "duration" "Invalid sleep duration" e.message]
    | _ => []

/-- A computed value, which may well be null. -/
structure Transform where
  value : Option Value := none

instance : Payload Transform where
  empty := {}
  fields := [⟨"value", .any, (·.value), fun v _ => ⟨some v⟩⟩]
  inputs p := [("value", p.value.getD .null)]

end PipelineResolution
