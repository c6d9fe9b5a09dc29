import ReviewRota.Json.Fields
import ReviewRota.Settings

/-!
# Logging

Which events are written, and what a record of an event holds. Loggers form a hierarchy by their
dotted names. Each logger has the level of the nearest logger above it that has one of its own; the
root logger has the level of the settings, and two loggers of libraries have the level of warnings
whatever the settings say.

A logger stands above another one only if it has been made, and a logger decides once for each level
whether it lets events of that level through. So what is written of an event depends on the loggers
that there were when its logger decided, and the events are followed one by one.
-/

namespace ReviewRota.Logging

/-- An event on its way to the log. -/
structure Entry where
  logger : String
  level : Level
  words : String
  fields : Json.Fields
  /-- The loggers that were made since the event before, apart from the logger of this event. -/
  made : List String := []

/-- The loggers with a level of their own, apart from the root logger. -/
def ownLevels : List (String × Level) := [("databases", .warning), ("httpx", .warning)]

/-- The name that is written backwards. -/
def ofBackwards (cs : List Char) : String := String.ofList cs.reverse

/-- The loggers above a logger, the nearest first, all names written backwards. Each is named by what
stands before a dot. Of two dots in a row only the second one counts, unless there is a logger whose
name ends with the first one. -/
def above (exist : List Char → Bool) : List Char → List (List Char)
  | d :: c :: rest =>
    if d = '.' then
      if exist (c :: rest) then (c :: rest) :: above exist (c :: rest) else above exist rest
    else above exist (c :: rest)
  | _ => []

/-- The names of a logger and of the loggers above it, the nearest first. -/
def lineage (loggers : List String) (name : String) : List String :=
  name :: (above (fun cs => loggers.contains (ofBackwards cs)) name.toList.reverse).map ofBackwards

/-- The level from which on a logger lets events through. -/
def threshold (root : Level) (loggers : List String) (name : String) : Level :=
  ((lineage loggers name).findSome? fun n => ownLevels.lookup n).getD root

/-- The loggers that there are, and what they have decided since the levels were set. -/
structure Registry where
  loggers : List String := ownLevels.map Prod.fst
  decisions : List ((String × Level) × Bool) := []

namespace Registry

/-- The loggers that there are when an event arises. -/
def enter (g : Registry) (e : Entry) : Registry := { g with loggers := e.logger :: e.made ++ g.loggers }

/-- Whether a logger lets an event through: as it decided before, or else by its level. -/
def decision (root : Level) (g : Registry) (e : Entry) : Bool :=
  (g.decisions.lookup (e.logger, e.level)).getD
    ((threshold root g.loggers e.logger).rank ≤ e.level.rank)

/-- What the loggers have decided after an event. -/
def settle (root : Level) (g : Registry) (e : Entry) : Registry :=
  { g with decisions := ((e.logger, e.level), g.decision root e) :: g.decisions }

end Registry

/-- The events that pass. -/
def kept (root : Level) : Registry → List Entry → List Entry
  | _, [] => []
  | g, e :: es =>
    let later := kept root ((g.enter e).settle root e) es
    if (g.enter e).decision root e then e :: later else later

/-- The name of a logger in records; the root logger is the one without a name. -/
def shownName (name : String) : String := if name = "" then "root" else name

/-- Fields with the name and the version of the program. -/
def withContext (s : AppSettings) (f : Json.Fields) : Json.Fields :=
  (f.set "app" (.text s.name)).set "version" (.text s.version)

/-- Fields that are not shown: the wish for a trace of calls, the time, and what logging notes for
itself. -/
def hidden : List Json.Name := ["stack_info", "timestamp", "_record", "_from_structlog"]

def isHidden (name : Json.Name) : Bool := hidden.contains name

def record (s : AppSettings) (e : Entry) : Json.Fields :=
  let described := ((e.fields.without isHidden).set "event" (.text e.words)).set "level" (.text e.level.word)
  withContext s (described.set "logger" (.text (shownName e.logger)))

def records (s : AppSettings) (es : List Entry) : List Json.Fields :=
  (kept s.logLevel {} es).map (record s)

/-- The number of lines that events take when they are written for a reader: one for each event and
one more for each line break in its words. -/
def lineCount (s : AppSettings) (es : List Entry) : Nat :=
  (kept s.logLevel {} es).foldl (fun n e => n + 1 + e.words.toList.count '\n') 0

/-- What is written: documents, or lines for a reader. -/
inductive Output where
  | documents (records : List Json.Fields)
  | lines (count : Nat)

/-- What is written of events. -/
def written (s : AppSettings) (es : List Entry) : Output :=
  if s.logJson then .documents (records s es) else .lines (lineCount s es)

end ReviewRota.Logging
