import PoolUplink.Json.Value
import PoolUplink.Rpc.Setup

/-!
# Features of a pool

A pool lists the optional features it has. The list is advice: a pool that answers badly, or not
at all, has none.
-/

set_option autoImplicit false
set_option relaxedAutoImplicit false

namespace PoolUplink

structure Features where
  versionRolling : Bool
  submitResponse : Bool
  deriving DecidableEq, Repr

namespace Features

open PoolUplink.Json

def none : Features := ⟨false, false⟩

inductive Problem where
  | notAnObject
  | noList
  | notAList
  deriving DecidableEq, Repr

def Problem.message : Problem → String
  | notAnObject => "result is not an object"
  | noList => "missing field capabilities"
  | notAList => "capabilities is not an array"

def names (items : List Value) : List String :=
  items.filterMap Value.string?

def list (result : Option Value) : Except Problem (List Value) :=
  match result.bind Value.members? with
  | .none => .error .notAnObject
  | some members =>
    match members.lookup "capabilities" with
    | .none => .error .noList
    | some v =>
      match v.items? with
      | .none => .error .notAList
      | some items => .ok items

/-- The features that a list names. Unknown names and other values are ignored. -/
def ofNames (names : List String) : Features :=
  ⟨names.contains Rpc.Setup.versionRolling, names.contains Rpc.Setup.submitResponse⟩

def ofResult (result : Option Value) : Features × List Problem :=
  match list result with
  | .ok items => (ofNames (names items), [])
  | .error problem => (none, [problem])

end Features

/-- What has been agreed with a pool about rolling versions. The answer to the request is not
interpreted, so it is what the request asks for. -/
structure Negotiated where
  mask : UInt32
  leastBits : UInt32
  deriving DecidableEq, Repr

/-- All bits may be rolled. -/
def Negotiated.requested : Negotiated := ⟨0xFFFFFFFF, 0⟩

end PoolUplink
