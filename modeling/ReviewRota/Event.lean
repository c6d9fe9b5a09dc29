import ReviewRota.Json.Basic
import ReviewRota.Text.Letters

/-!
# Events

What the service reports about its own work: a level, the words of the event, and named values.
-/

namespace ReviewRota

/-- Levels of events, from the least to the most urgent. -/
inductive Level where
  | debug
  | info
  | warning
  | error
  | critical
deriving DecidableEq, Repr

namespace Level

def rank : Level → Nat
  | debug => 10
  | info => 20
  | warning => 30
  | error => 40
  | critical => 50

/-- The levels in the order of their names. -/
def byName : List Level := [critical, debug, error, info, warning]

/-- The name of a level in settings. -/
def name : Level → String
  | debug => "DEBUG"
  | info => "INFO"
  | warning => "WARNING"
  | error => "ERROR"
  | critical => "CRITICAL"

/-- The name of a level in records. -/
def word : Level → String
  | debug => "debug"
  | info => "info"
  | warning => "warning"
  | error => "error"
  | critical => "critical"

/-- The level that a text names, whatever the case of its letters. -/
def ofName? (s : String) : Option Level := byName.find? fun l => l.name = Text.upperCase s

/-- The level that a record names. -/
def ofWord? (s : String) : Option Level := byName.find? fun l => l.word = s

end Level

structure Event where
  level : Level
  words : String
  values : List (String × Json)

end ReviewRota
