import PoolUplink.Log.Line

/-!
# Events

What a part of the program emits before it is a record: values with names, all as text. The message
is one of them, told from the others by its name alone, wherever it stands.
-/

set_option autoImplicit false
set_option relaxedAutoImplicit false

namespace PoolUplink.Log

/-- Values with names that are emitted together. -/
structure Event where
  level : Level
  target : String
  values : List (String × String)
  deriving DecidableEq, Repr

namespace Event

def messageName : String := "message"

/-- Puts a value in its place: a message in the place of an earlier one, and any other value behind
the fields. -/
def place (r : Record) (v : String × String) : Record :=
  if v.1 = messageName then { r with message := v.2 } else { r with fields := r.fields ++ [v] }

/-- The record of an event. One without a message has an empty one. -/
def record (e : Event) : Record :=
  e.values.foldl place ⟨e.level, e.target, "", []⟩

def print? (filter : Filter) (e : Event) : Option String :=
  Line.print? filter e.record

end Event

end PoolUplink.Log
