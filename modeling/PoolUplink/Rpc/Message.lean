import PoolUplink.Json.Printer
import PoolUplink.Json.Reader

/-!
# Messages

A line between the agent and a pool is one JSON object. With a method it is a request or a
notification, without one a response. Pools are loose about the rest: an id may be any value,
members may be missing, and unknown members are ignored. A repeated member that a kind of message
knows rules that kind out.
-/

set_option autoImplicit false
set_option relaxedAutoImplicit false

namespace PoolUplink.Rpc

open PoolUplink.Json

/-- A message. An absent part and a part that is `null` are the same. -/
inductive Message where
  /-- A request, or a notification if it has no id. -/
  | request (id : Option Value) (method : String) (params : Value)
  | response (id result error : Option Value)
  deriving Inhabited, DecidableEq, Repr

namespace Message

/-- The value of a member that occurs at most once. `none` stands for a repeated member, and
`some none` for a missing one. -/
def unique? (name : String) (members : List (String × Value)) : Option (Option Value) :=
  match members.filter (·.1 == name) with
  | [] => some none
  | [m] => some (some m.2)
  | _ => none

/-- A part of a message: absent, `null` or repeated parts are told from a value. -/
def part? (name : String) (members : List (String × Value)) : Option (Option Value) :=
  (unique? name members).map fun v => v.bind fun w => w.settle.present?

/-- The request that members make, if they make one: the method is there once and is a text
other than the empty one. -/
def asRequest? (members : List (String × Value)) : Option Message :=
  match part? "id" members, unique? "method" members, unique? "params" members with
  | some id, some (some (.string method)), some params =>
    if method = "" then none
    else some (request id method ((params.map Value.settle).getD .null))
  | _, _, _ => none

def asResponse? (members : List (String × Value)) : Option Message :=
  match part? "id" members, part? "result" members, part? "error" members with
  | some id, some result, some error => some (response id result error)
  | _, _, _ => none

def ofValue? : Value → Option Message
  | .object members =>
    match asRequest? members with
    | some m => some m
    | none => asResponse? members
  | _ => none

/-- Reads a line. All of it is read before its shape is looked at. -/
def ofLine (line : List UInt8) : Except Fault Message :=
  (Value.reader.filterMap ofValue?).run line

def optional (name : String) (v : Option Value) : List (String × Value) :=
  (v.map fun w => (name, w)).toList

def members : Message → List (String × Value)
  | request id method params =>
    [("id", id.getD .null), ("method", .string method), ("params", params)]
  | response id result error =>
    ("id", id.getD .null) :: optional "result" result ++ optional "error" error

def toLine (m : Message) : List UInt8 :=
  (Value.object m.members).write ++ [0x0A]

def rawId : Message → Option Value
  | request id _ _ => id
  | response id _ _ => id

/-- The id, if it is a text. -/
def id? (m : Message) : Option String :=
  m.rawId.bind Value.string?

def method? : Message → Option String
  | request _ method _ => some method
  | response _ _ _ => none

def named (id method : String) (params : Value) : Message :=
  request (some (.string id)) method params

end Message

end PoolUplink.Rpc
