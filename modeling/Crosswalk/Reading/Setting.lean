import Crosswalk.Config
import Crosswalk.Parameters

/-!
# The setting of a mapping

What reading a rule depends on besides the record: the library's parameters, the
configuration, and the calendar. The calendar gives the current date in any time
zone, so a run is a function of the day on which it takes place.
-/

namespace Crosswalk

structure Setting where
  parameters : Parameters
  config : Config
  /-- The current date in a time zone, as ISO text. -/
  today : Zone → String

def Setting.localToday (setting : Setting) : Except Error String :=
  setting.parameters.zone.map setting.today

end Crosswalk
