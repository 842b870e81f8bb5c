import PipelineResolution.Diagnostic.Basic

/-!
# Diagnostics in JSON

Absent files and subjects are left out. Reading accepts what writing produces, and the defaults of
fields that may be left out.
-/
namespace PipelineResolution

def Severity.toJson : Severity → Json
  | .error => .string "error"
  | .warning => .string "warning"

def Severity.ofJson? : Json → Option Severity
  | .string "error" | .object [("error", .null)] => some .error
  | .string "warning" | .object [("warning", .null)] => some .warning
  | _ => none

def Location.toJson (l : Location) : Json :=
  Json.ofFields (Dict.field "filename" Json.string l.file ++ [("path", .string l.path)])

def Location.ofJson? (j : Json) : Option Location := do
  let fields ← j.record? ["filename", "path"]
  let file ← fields.optional "filename" Json.text?
  let path ← fields.required "path" Json.text?
  return ⟨file, path⟩

namespace DiagnosticKind

def toJson : DiagnosticKind → Json
  | .unknownVariable name =>
    Json.ofFields [("type", .string "unknown_variable"), ("name", .string name)]
  | .malformedReference reference =>
    Json.ofFields [("type", .string "malformed_reference"), ("reference", .string reference)]
  | .unsupportedAttribute name =>
    Json.ofFields [("type", .string "unsupported_attribute"), ("name", .string name)]
  | .validation => Json.ofFields [("type", .string "validation")]
  | .other => Json.ofFields [("type", .string "other")]

private def ofTagged? (tag : String) (fields : List String → Option (Dict Json)) :
    Option DiagnosticKind :=
  match tag with
  | "unknown_variable" => do
    let fields ← fields ["name"]
    return .unknownVariable (← fields.required "name" Json.text?)
  | "malformed_reference" => do
    let fields ← fields ["reference"]
    return .malformedReference (← fields.required "reference" Json.text?)
  | "unsupported_attribute" => do
    let fields ← fields ["name"]
    return .unsupportedAttribute (← fields.required "name" Json.text?)
  | "validation" => (fields []).map fun _ => .validation
  | "other" => (fields []).map fun _ => .other
  | _ => none

def ofJson? : Json → Option DiagnosticKind
  | .object fields => do
    let tag ← Dict.get? fields "type" >>= Json.text?
    ofTagged? tag fun _ => some fields
  | .array (.string tag :: items) => ofTagged? tag fun names => (Json.array items).record? names
  | _ => none

end DiagnosticKind

def Diagnostic.toJson (d : Diagnostic) : Json :=
  Json.ofFields
    ([("severity", d.severity.toJson), ("summary", .string d.summary),
      ("detail", .string d.detail)]
      ++ Dict.field "subject" Location.toJson d.subject ++ [("kind", d.kind.toJson)])

def Diagnostic.ofJson? (j : Json) : Option Diagnostic := do
  let fields ← j.record? ["severity", "summary", "detail", "subject", "kind"]
  let severity ← fields.required "severity" Severity.ofJson?
  let summary ← fields.required "summary" Json.text?
  let detail ← fields.required "detail" Json.text?
  let subject ← fields.optional "subject" Location.ofJson?
  let kind ← fields.defaulted "kind" .other DiagnosticKind.ofJson?
  return ⟨severity, summary, detail, subject, kind⟩

def Diagnostics.toJson (ds : Diagnostics) : Json := .array (List.map Diagnostic.toJson ds)

def Diagnostics.ofJson? (j : Json) : Option Diagnostics := do
  let items ← j.items?
  items.mapM Diagnostic.ofJson?

end PipelineResolution
