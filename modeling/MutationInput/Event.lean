import MutationInput.Location
import MutationInput.OperationKind
import MutationInput.Text.Visible
import MutationInput.Value

/-!
# Events

What the library reports while it works. Every event has a level and a text; a log keeps the
events at its own level and above.
-/
namespace MutationInput

/-- The levels of a log, the least first. -/
inductive Level where
  | trace
  | debug
  | info
  | warn
  deriving DecidableEq, Repr, Inhabited

/-- The place of a level among the levels. -/
def Level.rank : Level → Nat
  | .trace => 0
  | .debug => 1
  | .info => 2
  | .warn => 3

/-- The word for a level. -/
def Level.word : Level → String
  | .trace => "TRACE"
  | .debug => "DEBUG"
  | .info => "INFO"
  | .warn => "WARN"

/-- Something that is worth a line in the log. -/
inductive Event where
  /-- An operation was loaded. -/
  | loaded (kind : OperationKind) (name : Option String) (selections : Nat)
  /-- A fragment definition was left behind. -/
  | fragmentIgnored (name : String)
  /-- The arguments of a selection are looked at. -/
  | inspecting (selected field : String) (location : Location)
  /-- A requested argument was not passed. -/
  | argumentAbsent (argument field : String)
  /-- An argument passes a variable that has no binding. -/
  | unboundSkipped (argument «variable» : String)
  /-- An argument has a value without fields. -/
  | kindSkipped (argument : String) (kind : ValueKind)
  /-- A variable without binding was taken to provide no fields. -/
  | noBinding («variable» : String)
  /-- A request of so many bytes is about to be sent. -/
  | posting (bytes : Nat) (endpoint : String)
  /-- A response head was received. -/
  | responded (endpoint status : String)
  /-- The response lists errors. -/
  | errorsReturned (count : Nat)
  /-- The log level was set. -/
  | levelSet (level : Level)
  /-- The log level asked for is not one. -/
  | levelUnknown (value : String)
  /-- Variables were loaded for an operation. -/
  | bindingsLoaded (count : Nat) (kind : OperationKind)
  deriving DecidableEq, Repr

namespace Event

/-- The level of an event. -/
def level : Event → Level
  | .loaded .. => .trace
  | .fragmentIgnored _ => .trace
  | .inspecting .. => .trace
  | .argumentAbsent .. => .trace
  | .unboundSkipped .. => .debug
  | .kindSkipped .. => .debug
  | .noBinding _ => .debug
  | .posting .. => .debug
  | .responded .. => .debug
  | .errorsReturned _ => .debug
  | .levelSet _ => .trace
  | .levelUnknown _ => .warn
  | .bindingsLoaded .. => .debug

/-- The text of an event. -/
def text : Event → String
  | .loaded kind name selections =>
    "Loaded " ++ kind.word ++ " operation `" ++ name.getD "<anonymous>" ++ "` with " ++
      toString selections ++ " top-level selections."
  | .fragmentIgnored name => "Ignoring fragment definition `" ++ name ++ "`."
  | .inspecting selected field location =>
    "Inspecting selection `" ++ selected ++ "` of `" ++ field ++ "` at " ++ location.text ++ "."
  | .argumentAbsent argument field =>
    "Requested argument `" ++ argument ++ "` was not passed to `" ++ field ++ "`."
  | .unboundSkipped argument name =>
    "Argument `" ++ argument ++ "` references unbound variable `$" ++ name ++ "`; skipping."
  | .kindSkipped argument kind =>
    "Skipping argument `" ++ argument ++ "`: " ++ kind.word ++ " values have no provided fields."
  | .noBinding name =>
    "No binding supplied for `$" ++ name ++ "`; treating it as providing no fields."
  | .posting bytes endpoint =>
    "Posting GraphQL request (" ++ toString bytes ++ " bytes) to " ++ endpoint ++ "."
  | .responded endpoint status =>
    "GraphQL endpoint " ++ endpoint ++ " responded with HTTP " ++ status ++ "."
  | .errorsReturned count => "GraphQL endpoint returned " ++ toString count ++ " errors."
  | .levelSet level => "Logging level set to `" ++ level.word ++ "`."
  | .levelUnknown value => "Invalid `LOG_LEVEL` environment variable value: `" ++ value ++ "`"
  | .bindingsLoaded count kind =>
    "Loaded " ++ toString count ++ " variable bindings for a " ++ kind.word ++ " operation."

/-- The text of an event on a terminal. -/
def visibleText (e : Event) : String :=
  Text.visible e.text

end Event

/-- A result together with the events on the way to it. -/
structure Logged (α : Type) where
  events : List Event
  result : α
  deriving Repr

namespace Logged

variable {α β : Type}

/-- A result that nothing was reported about. -/
def silent (x : α) : Logged α := ⟨[], x⟩

/-- A result after further events. -/
def report (events : List Event) (l : Logged α) : Logged α :=
  ⟨events ++ l.events, l.result⟩

/-- The result of `f` on a result that is not an error, after the events on the way to it. -/
def andThen {ε : Type} (l : Logged (Except ε α)) (f : α → Logged (Except ε β)) :
    Logged (Except ε β) :=
  match l.result with
  | .error e => ⟨l.events, .error e⟩
  | .ok x => (f x).report l.events

/-- The same events with the image of the result. -/
def map (f : α → β) (l : Logged α) : Logged β :=
  ⟨l.events, f l.result⟩

/-- The events at a level and above, in order. -/
def eventsAt (level : Level) (l : Logged α) : List Event :=
  l.events.filter fun e => level.rank ≤ e.level.rank

end Logged

end MutationInput
