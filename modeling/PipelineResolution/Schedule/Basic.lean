import PipelineResolution.Keyword
import PipelineResolution.Schedule.CronText

/-!
# Schedules

A schedule is one of a few fixed intervals or a cron expression, which is checked when it is read.
-/
namespace PipelineResolution

def ScheduleInterval.expression : ScheduleInterval → String
  | .hourly => "0 * * * *"
  | .daily => "0 0 * * *"
  | .weekly => "0 0 * * 0"
  | .monthly => "0 0 1 * *"

/-- The rule that an interval stands for. -/
def ScheduleInterval.rule (i : ScheduleInterval) : Cron where
  minutes := [0]
  hours := if i = .hourly then List.range 24 else [0]
  days := if i = .monthly then ⟨false, [1], false, []⟩ else ⟨true, [], false, []⟩
  months := List.range' 1 12
  weekdays := if i = .weekly then ⟨false, [0], [], []⟩ else ⟨true, [], [], []⟩
  both := false

inductive Schedule where
  | interval (i : ScheduleInterval)
  | cron (expression : String) (rule : Cron)
  deriving Inhabited

inductive ScheduleError where
  /-- Neither an interval nor five fields. -/
  | shape (text : String)
  /-- Five fields that are no cron rule. -/
  | fields (text : String)
  /-- The rule never fires again. -/
  | exhausted (text : String)

def ScheduleError.message : ScheduleError → String
  | .shape text => "invalid schedule: '" ++ text
    ++ "' is neither a 5-field cron expression nor one of: " ++ Keyword.expected ScheduleInterval
  | .fields text => "invalid schedule: '" ++ text ++ "': malformed cron field"
  | .exhausted text => "schedule '" ++ text ++ "' never fires again"

namespace Schedule

def ofText (s : String) : Except ScheduleError Schedule :=
  let text := Text.trim s
  match Keyword.parse ScheduleInterval text with
  | .ok i => .ok (.interval i)
  | .error _ =>
    let fields := Text.words text
    if fields.length ≠ 5 then .error (.shape text)
    else match Cron.ofFields? fields with
      | some rule => .ok (.cron text rule)
      | none => .error (.fields text)

def expression : Schedule → String
  | .interval i => i.expression
  | .cron expression _ => expression

def rule : Schedule → Cron
  | .interval i => i.rule
  | .cron _ rule => rule

def nextAfter (s : Schedule) (m : Moment) : Except ScheduleError Moment :=
  match s.rule.next? m with
  | some next => .ok next
  | none => .error (.exhausted s.expression)

end Schedule
end PipelineResolution
