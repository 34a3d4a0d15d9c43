import Overdue.Calendar
import Overdue.Form.Problem

/-! Settings from named values: the holidays, the time zone and the level of the log. Both the holidays and the zone
must be good. -/
namespace Overdue

structure Settings where
  holidays : String := ""
  zone : String := "UTC"
  logLevel : String := "INFO"
deriving DecidableEq, Repr

namespace Settings

/-- Of values with one name the last counts. -/
def value? (values : List (String × String)) (name : String) : Option String :=
  (values.reverse.find? fun value => value.1 = name).map Prod.snd

def problem? (name : String) : Except ConfigError α → List Problem
  | .ok _ => []
  | .error error => [⟨[name], .rule error.message⟩]

def zoneOf (name : String) : Except ConfigError Zone :=
  match Zone.ofName? name with
  | some zone => .ok zone
  | none => .error (.zone name)

def load (values : List (String × String)) : Checked Settings :=
  let settings : Settings :=
    { holidays := (value? values "HOLIDAYS").getD ""
      zone := (value? values "TIMEZONE").getD "UTC"
      logLevel := (value? values "LOG_LEVEL").getD "INFO" }
  let problems := problem? "HOLIDAYS" (HolidayList.text settings.holidays).parse ++ problem? "TIMEZONE" (zoneOf settings.zone)
  if problems = [] then .accepted settings else .rejected problems

def calendar (settings : Settings) : Except ConfigError Calendar :=
  Calendar.ofConfig (.text settings.holidays) settings.zone

end Settings
end Overdue
