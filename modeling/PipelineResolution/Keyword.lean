import PipelineResolution.Json.Basic

/-!
# Keywords of the configuration language

Each closed set of words is an inductive type with a `Keyword` instance that lists its members and
their spelling. Reading is a search in that list, so a word is accepted exactly when it spells a
member.
-/
namespace PipelineResolution

/-- A closed set of words: what it names in messages, its members in order, their spelling. -/
class Keyword (α : Type) where
  what : String
  all : List α
  spell : α → String

structure UnknownKeyword where
  what : String
  value : String
  expected : String
  deriving DecidableEq

def UnknownKeyword.message (e : UnknownKeyword) : String :=
  "invalid " ++ e.what ++ " '" ++ e.value ++ "', expected one of: " ++ e.expected

namespace Keyword
variable (α : Type) [Keyword α]

def expected : String := ", ".intercalate ((all : List α).map spell)

def parse (s : String) : Except UnknownKeyword α :=
  match (all : List α).find? (spell · == s) with
  | some k => .ok k
  | none => .error ⟨what α, s, expected α⟩

theorem spell_of_parse {α : Type} [Keyword α] {s : String} {k : α} (h : parse α s = .ok k) :
    spell k = s := by
  unfold parse at h
  split at h
  · rename_i found hf
    cases h
    simpa using List.find?_some hf
  · cases h

def toJson {α : Type} [Keyword α] (k : α) : Json := .string (spell k)

/-- A keyword in JSON: its spelling, or an object with the spelling as its one key and null. -/
def ofJson? : Json → Option α
  | .string s => (parse α s).toOption
  | .object [(s, .null)] => (parse α s).toOption
  | _ => none

/-- A keyword in a TOML document: its spelling, or a table with the spelling as its one key and
nothing inside. -/
def ofToml? : Json → Option α
  | .string s | .object [(s, .object [])] | .object [(s, .array [])] => (parse α s).toOption
  | _ => none

end Keyword

inductive StepKind where
  | http | sleep | email | transform | query | pipeline | function | container | input | message
  deriving DecidableEq, Inhabited

instance : Keyword StepKind where
  what := "step type"
  all := [.http, .sleep, .email, .transform, .query, .pipeline, .function, .container, .input,
    .message]
  spell
    | .http => "http" | .sleep => "sleep" | .email => "email" | .transform => "transform"
    | .query => "query" | .pipeline => "pipeline" | .function => "function"
    | .container => "container" | .input => "input" | .message => "message"

/-- How the delay between retry attempts grows. -/
inductive RetryStrategy where
  | constant | linear | exponential
  deriving DecidableEq, Inhabited

instance : Keyword RetryStrategy where
  what := "retry strategy"
  all := [.constant, .linear, .exponential]
  spell
    | .constant => "constant" | .linear => "linear" | .exponential => "exponential"

inductive InputType where
  | button | text | select | multiselect
  deriving DecidableEq, Inhabited

instance : Keyword InputType where
  what := "input type"
  all := [.button, .text, .select, .multiselect]
  spell
    | .button => "button" | .text => "text" | .select => "select" | .multiselect => "multiselect"

inductive OptionStyle where
  | default | ok | info | alert
  deriving DecidableEq, Inhabited

instance : Keyword OptionStyle where
  what := "option style"
  all := [.default, .ok, .info, .alert]
  spell
    | .default => "default" | .ok => "ok" | .info => "info" | .alert => "alert"

inductive HttpMethod where
  | get | post | put | patch | delete | head | options
  deriving DecidableEq, Inhabited

instance : Keyword HttpMethod where
  what := "http method"
  all := [.get, .post, .put, .patch, .delete, .head, .options]
  spell
    | .get => "get" | .post => "post" | .put => "put" | .patch => "patch" | .delete => "delete"
    | .head => "head" | .options => "options"

inductive TriggerKind where
  | schedule | query | http
  deriving DecidableEq, Inhabited

instance : Keyword TriggerKind where
  what := "trigger type"
  all := [.schedule, .query, .http]
  spell
    | .schedule => "schedule" | .query => "query" | .http => "http"

/-- The row change a capture of a query trigger reacts to. -/
inductive CaptureType where
  | insert | update | delete
  deriving DecidableEq, Inhabited

instance : Keyword CaptureType where
  what := "capture type"
  all := [.insert, .update, .delete]
  spell
    | .insert => "insert" | .update => "update" | .delete => "delete"

/-- A fixed schedule that stands for a cron expression. -/
inductive ScheduleInterval where
  | hourly | daily | weekly | monthly
  deriving DecidableEq, Inhabited

instance : Keyword ScheduleInterval where
  what := "schedule interval"
  all := [.hourly, .daily, .weekly, .monthly]
  spell
    | .hourly => "hourly" | .daily => "daily" | .weekly => "weekly" | .monthly => "monthly"

/-- How an http trigger answers its caller. -/
inductive ExecutionMode where
  | synchronous | asynchronous
  deriving DecidableEq, Inhabited

instance : Keyword ExecutionMode where
  what := "execution mode"
  all := [.synchronous, .asynchronous]
  spell
    | .synchronous => "synchronous" | .asynchronous => "asynchronous"

inductive ParamType where
  | string | number | bool | list | map | any
  deriving DecidableEq, Inhabited

instance : Keyword ParamType where
  what := "param type"
  all := [.string, .number, .bool, .list, .map, .any]
  spell
    | .string => "string" | .number => "number" | .bool => "bool" | .list => "list"
    | .map => "map" | .any => "any"

end PipelineResolution
