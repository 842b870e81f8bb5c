import PipelineResolution.Json.Basic
import PipelineResolution.Text.Cut

/-!
# Diagnostics

A diagnostic is one report to the author of a document. Reports are gathered in batches, so that
one pass over a resource says everything it can; a batch fails its resource when it holds an error.
-/
namespace PipelineResolution

inductive Severity where
  | error | warning
  deriving DecidableEq, Inhabited

/-- Where something stands: a dotted path of blocks and attributes, and its file when known. -/
structure Location where
  file : Option String
  path : String
  deriving DecidableEq, Inhabited

namespace Location

def ofPath (path : String) : Location := ⟨none, path⟩

def child (l : Location) (segment : String) : Location :=
  { l with path := if l.path.isEmpty then segment else l.path ++ "." ++ segment }

def display (l : Location) : String :=
  match l.file with
  | some file => file ++ ":" ++ l.path
  | none => l.path

end Location

/-- What a diagnostic is about, for programs. -/
inductive DiagnosticKind where
  /-- An expression names a root that the environment does not bind. -/
  | unknownVariable (name : String)
  /-- A reference to a step or credential has too few segments. -/
  | malformedReference (reference : String)
  /-- An attribute that the resource does not take. -/
  | unsupportedAttribute (name : String)
  /-- A structural rule is violated. -/
  | validation
  | other
  deriving DecidableEq, Inhabited

structure Diagnostic where
  severity : Severity
  summary : String
  detail : String
  subject : Option Location
  kind : DiagnosticKind
  deriving DecidableEq, Inhabited

/-- Reports in the order in which they were found. -/
abbrev Diagnostics := List Diagnostic

namespace Diagnostic

def error (summary detail : String) : Diagnostic := ⟨.error, summary, detail, none, .other⟩

def warning (summary detail : String) : Diagnostic := ⟨.warning, summary, detail, none, .other⟩

def validation (summary detail : String) : Diagnostic :=
  ⟨.error, summary, detail, none, .validation⟩

def unknownVariableStart : String := "There is no variable named \""

def unknownVariable (name : String) : Diagnostic :=
  ⟨.error, "Unknown variable", unknownVariableStart ++ name ++ "\".", none, .unknownVariable name⟩

def about (d : Diagnostic) (subject : Location) : Diagnostic := { d with subject := some subject }

/-- The report about a given place unless it has one. -/
def orAbout (d : Diagnostic) (subject : Location) : Diagnostic :=
  { d with subject := d.subject <|> some subject }

def isError (d : Diagnostic) : Bool := d.severity == .error

/-- The root reported as unknown. The typed kind counts; with `matchText` a report without one is
also recognised by its wording. -/
def unknownSymbol? (d : Diagnostic) (matchText : Bool) : Option String :=
  match d.kind with
  | .unknownVariable name => some name
  | .other =>
    if matchText then do
      let (_, rest) ← Text.cut unknownVariableStart d.detail
      let (name, _) ← Text.cut "\"" rest
      return name
    else none
  | _ => none

def display (d : Diagnostic) : String :=
  let level := match d.severity with
    | .error => "error"
    | .warning => "warning"
  level ++ ": " ++ d.summary
    ++ (if d.detail.isEmpty then "" else ": " ++ d.detail)
    ++ (match d.subject with
      | some l => " (" ++ l.display ++ ")"
      | none => "")

end Diagnostic

namespace Diagnostics

def hasErrors (ds : Diagnostics) : Bool := List.any ds Diagnostic.isError

def errors (ds : Diagnostics) : Diagnostics := List.filter Diagnostic.isError ds

def orAbout (ds : Diagnostics) (subject : Location) : Diagnostics :=
  List.map (·.orAbout subject) ds

/-- The value unless the batch holds an error. -/
def orValue (ds : Diagnostics) (value : α) : Except Diagnostics α :=
  if ds.hasErrors then .error ds else .ok value

/-- Takes the elements of a list into a state one by one and gathers the reports. -/
def gather (f : σ → α → σ × Diagnostics) (s : σ) : List α → σ × Diagnostics
  | [] => (s, [])
  | a :: as =>
    let (s, ds) := f s a
    let (s, more) := gather f s as
    (s, ds ++ more)

def display (ds : Diagnostics) : String := "\n".intercalate (List.map Diagnostic.display ds)

end Diagnostics
end PipelineResolution
