import MealRota.Error
import MealRota.Json.Reader
import MealRota.Text.Blank

/-!
# MealRota.Journal

What happens while planning.  Every event is entered into a journal as it
happens; those that are worth reporting are also log entries.  The journal says
in particular between which assignments a cycle was reset.
-/

namespace MealRota

/-- How urgent a log entry is. -/
inductive LogLevel where
  | debug
  | info
  | warning
  | error
  deriving DecidableEq

/-- The name of a level. -/
def LogLevel.name : LogLevel → String
  | debug => "DEBUG"
  | info => "INFO"
  | warning => "WARNING"
  | error => "ERROR"

/-- What a caller can ask for. -/
inductive Task where
  | generation
  | regeneration
  | replacement
  deriving DecidableEq

/-- What is reported when a task fails. -/
def Task.abortMessage : Task → String
  | generation => "Meal plan generation aborted"
  | regeneration => "Meal plan regeneration aborted"
  | replacement => "Meal replacement aborted"

/-- Something that happens while planning. -/
inductive Event where
  /-- A recipe was left out because an earlier one has its id. -/
  | duplicateIgnored (id : String)
  /-- The dietary restrictions were applied. -/
  | dietApplied (total eligible : Nat) (restrictions : List String) (mode : DietMode)
  /-- A slot of a week is about to be filled. -/
  | slotReached (course : Course) (date : Date)
  /-- A side dish is about to be looked for beside a main course. -/
  | sideSought (mainId : String) (date : Date)
  /-- A recipe was marked as used and its cuisine counted. -/
  | recipeTaken (course : Course) (id : String)
  /-- A new cycle began for a course. -/
  | cycleReset (course : Course) (oldCycle newCycle : Nat) (poolSize : Int)
  /-- No candidate for an optional course passed the constraints. -/
  | slotLeftEmpty (course : Course) (date : Date) (rejections : Rejections)
  /-- No side dish passed the constraints. -/
  | noSideFits (mainId : String) (date : Date)
  | weekPlanned (start : Date) (assignments cycle : Nat)
  | generating (start : Date) (weeks : Int) (eligible mains cycle : Nat)
  | generated (weeks assignments cycle : Nat)
  | regenerating (weeks : List Nat) (lockedMains cycle : Nat)
  | mealReplaced (date : Date) (course : Course) (oldId newId : String)
  /-- A task failed in a way that callers are expected to handle. -/
  | aborted (task : Task) (failure : PlanError)

/-- An entry of the log. -/
structure LogEntry where
  level : LogLevel
  message : String
  extra : List (String × Value)

/-- The details of an entry: what it has beside its message, nulls left out. -/
def LogEntry.details (e : LogEntry) : List (String × Value) :=
  e.extra.filter fun f => !f.2.isNull

/-- The names that an entry has for its own use; no detail may have one of them. -/
def LogEntry.ownNames : List String :=
  ["message", "asctime", "name", "msg", "args", "levelname", "levelno", "pathname", "filename",
   "module", "exc_info", "exc_text", "stack_info", "lineno", "funcName", "created", "msecs",
   "relativeCreated", "thread", "threadName", "processName", "process"]

/-- The names that the log fills in itself; details with one of them are left out. -/
def LogEntry.filledNames : List String :=
  ["level", "location", "timestamp", "service", "exception", "stack_trace", "xray_trace_id"]

/-- The first detail that has a name of the entry's own, if there is one. -/
def LogEntry.intruder? (e : LogEntry) : Option String :=
  (e.extra.map Prod.fst).find? LogEntry.ownNames.contains

/-- What a message that is read as JSON may hold: values within 980 lists and records, and whole
numbers of `mostDigits` digits. -/
def messageLimits : Json.Limits := ⟨some 980, some mostDigits, none⟩

/-- The message as the log writes it: one that is JSON is written as the value it denotes.  JSON
that is nested too deeply is refused, with the kind of what encloses too much. -/
def LogEntry.written (e : LogEntry) : Except Json.Container Value :=
  match Json.read messageLimits e.message with
  | .ok v => .ok v
  | .error .malformed => .ok (.text e.message)
  | .error (.tooDeep innermost) => .error innermost

/-- What the log writes of an entry, nulls left out. -/
def LogEntry.fields (e : LogEntry) : Except Json.Container (List (String × Value)) :=
  e.written.map fun message =>
    ([("level", .text e.level.name), ("message", message)] ++
        e.extra.filter fun f => !LogEntry.filledNames.contains f.1).filter fun f => !f.2.isNull

/-- What the log says of an event, if anything. -/
def Event.entry? : Event → Option LogEntry
  | .duplicateIgnored id => some ⟨.warning, "Duplicate recipe id ignored", [("recipe_id", .text id)]⟩
  | .dietApplied total eligible restrictions mode =>
      some ⟨.debug, "Applied dietary filter",
        [("total_recipes", .ofNat total), ("eligible_recipes", .ofNat eligible),
         ("restrictions", .list (restrictions.map .text)), ("mode", .text mode.name)]⟩
  | .slotReached .. | .sideSought .. | .recipeTaken .. => none
  | .cycleReset course oldCycle newCycle poolSize =>
      some ⟨.info, "Rotation cycle reset",
        [("course_type", .text course.name), ("old_cycle_number", .ofNat oldCycle),
         ("new_cycle_number", .ofNat newCycle), ("pool_size", .ofInt poolSize)]⟩
  | .slotLeftEmpty course date rejections =>
      some ⟨.info, "Optional course left empty",
        [("course_type", .text course.name), ("date", .text date.iso),
         ("rejections", rejections.toValue)]⟩
  | .noSideFits mainId date =>
      some ⟨.debug, "No accompaniment fits",
        [("main_course_id", .text mainId), ("date", .text date.iso)]⟩
  | .weekPlanned start assignments cycle =>
      some ⟨.info, "Planned week",
        [("week_start", .text start.iso), ("assignments", .ofNat assignments),
         ("cycle_number", .ofNat cycle)]⟩
  | .generating start weeks eligible mains cycle =>
      some ⟨.info, "Generating meal plan",
        [("start_date", .text start.iso), ("week_count", .ofInt weeks),
         ("eligible_recipes", .ofNat eligible), ("main_courses", .ofNat mains),
         ("cycle_number", .ofNat cycle)]⟩
  | .generated weeks assignments cycle =>
      some ⟨.info, "Generated meal plan",
        [("week_count", .ofNat weeks), ("assignments", .ofNat assignments),
         ("cycle_number", .ofNat cycle)]⟩
  | .regenerating weeks lockedMains cycle =>
      some ⟨.info, "Regenerating weeks",
        [("week_indices", .list (weeks.map .ofNat)), ("locked_main_courses", .ofNat lockedMains),
         ("cycle_number", .ofNat cycle)]⟩
  | .mealReplaced date course oldId newId =>
      some ⟨.info, "Replaced meal",
        [("date", .text date.iso), ("course_type", .text course.name),
         ("old_recipe_id", .text oldId), ("new_recipe_id", .text newId)]⟩
  | .aborted task failure =>
      some ⟨.error, task.abortMessage,
        [("error", .text failure.message), ("error_type", .text failure.name)]⟩

/-- The trace of a failure as the log prints it, on one line: the failure's name and wording,
with a bar in place of each line break. -/
def traceLine (name message : String) : String :=
  let head := if message.isEmpty then name else name ++ ": " ++ message
  let lines := (head.toList ++ ['\n']).flatMap fun c => if c = '\n' then [' ', '|', ' '] else [c]
  Text.trim (String.ofList lines)

end MealRota
