import PoolUplink.Log.Record

/-!
# Log lines

A record is printed as its level in colour, its target and its message; its fields follow on a
line of their own. Records that come from other parts of the program carry their target in a
field; fields of that origin are not printed. The time of day, which stands in front of the level
wherever lines are written, is no part of them.
-/

set_option autoImplicit false
set_option relaxedAutoImplicit false

namespace PoolUplink.Log.Line

def ownScope : List Char := "stratum_agent::".toList

/-- The target of records that come from other parts of the program. -/
def bridge : String := "log"

/-- The field that carries the target of such a record. -/
def bridgedTarget : String := "log.target"

def isHidden (name : String) : Bool := "log.".toList.isPrefixOf name.toList

/-- The target as it is printed: the agent's own without their scope, and the one in the field of
a record that came over the bridge. -/
def shortTarget (target : String) (fields : List (String × String)) : String :=
  if ownScope.isPrefixOf target.toList then
    String.ofList (target.toList.drop ownScope.length)
  else if target = bridge then (fields.lookup bridgedTarget).getD target
  else target

def colour (code : String) : String := "\x1b[" ++ code ++ "m"

def plain : String := colour "0"

def level : Level → String
  | .error => colour "31" ++ "ERROR" ++ plain
  | .warn => colour "33" ++ "WARN " ++ plain
  | .info => colour "32" ++ "INFO " ++ plain
  | .debug => colour "34" ++ "DEBUG" ++ plain
  | .trace => colour "35" ++ "TRACE" ++ plain

def fieldList (fields : List (String × String)) : String :=
  String.intercalate ", " (fields.map fun f => f.1 ++ "=" ++ f.2)

def fieldLine (fields : List (String × String)) : String :=
  match fields.filter fun f => !isHidden f.1 with
  | [] => ""
  | shown => "\n" ++ colour "90" ++ "               " ++ fieldList shown ++ plain

/-- The lines of a record, without the time in front of them. -/
def render (r : Record) : String :=
  level r.level ++ " " ++ shortTarget r.target r.fields ++ ": " ++ r.message ++
    fieldLine r.fields ++ "\n"

def print? (filter : Filter) (r : Record) : Option String :=
  if filter.shows r.level r.target then some (render r) else none

def bridged (level : Level) (target message : String) : Record :=
  ⟨level, bridge, message, [(bridgedTarget, target)]⟩

end PoolUplink.Log.Line
