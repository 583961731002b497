import PoolUplink.Binary64.Basic

/-!
# JSON values

A value as it is written, its members in written order. `settle` puts it into normal form: the
members of every object in the order of their names, and of repeated names the last one.
-/

set_option autoImplicit false
set_option relaxedAutoImplicit false

namespace PoolUplink.Json

/-- The whole numbers that are kept exactly: those of 64 bits, signed or unsigned. -/
def Exact (n : Int) : Prop := Int64.minValue.toInt ≤ n ∧ n < UInt64.size

instance (n : Int) : Decidable (Exact n) :=
  inferInstanceAs (Decidable (_ ∧ _))

/-- A number: a whole number that is kept exactly, or any other at double precision. -/
inductive Number where
  | whole (value : Int) (exact : Exact value)
  | double (value : Binary64)
  deriving DecidableEq, Repr

def Number.toDouble : Number → Binary64
  | .whole n _ => Binary64.ofInt n
  | .double x => x

inductive Value where
  | null
  | bool (b : Bool)
  | number (n : Number)
  | string (s : String)
  | array (items : List Value)
  | object (members : List (String × Value))
  deriving Inhabited, Repr

namespace Value

mutual

def decEq : (v w : Value) → Decidable (v = w)
  | null, w => match w with
    | null => .isTrue rfl
    | bool _ | number _ | string _ | array _ | object _ => .isFalse nofun
  | bool b, w => match w with
    | bool c => decidable_of_iff (b = c) (by simp)
    | null | number _ | string _ | array _ | object _ => .isFalse nofun
  | number m, w => match w with
    | number n => decidable_of_iff (m = n) (by simp)
    | null | bool _ | string _ | array _ | object _ => .isFalse nofun
  | string s, w => match w with
    | string t => decidable_of_iff (s = t) (by simp)
    | null | bool _ | number _ | array _ | object _ => .isFalse nofun
  | array vs, w => match w with
    | array ws =>
      have := decEqItems vs ws
      decidable_of_iff (vs = ws) (by simp)
    | null | bool _ | number _ | string _ | object _ => .isFalse nofun
  | object ms, w => match w with
    | object ns =>
      have := decEqMembers ms ns
      decidable_of_iff (ms = ns) (by simp)
    | null | bool _ | number _ | string _ | array _ => .isFalse nofun

def decEqItems : (vs ws : List Value) → Decidable (vs = ws)
  | [], ws => match ws with
    | [] => .isTrue rfl
    | _ :: _ => .isFalse nofun
  | v :: vs, ws => match ws with
    | [] => .isFalse nofun
    | w :: ws =>
      have := decEq v w
      have := decEqItems vs ws
      decidable_of_iff (v = w ∧ vs = ws) (by simp)

def decEqMembers : (ms ns : List (String × Value)) → Decidable (ms = ns)
  | [], ns => match ns with
    | [] => .isTrue rfl
    | _ :: _ => .isFalse nofun
  | (name, v) :: ms, ns => match ns with
    | [] => .isFalse nofun
    | (other, w) :: ns =>
      have := decEq v w
      have := decEqMembers ms ns
      decidable_of_iff (name = other ∧ v = w ∧ ms = ns) (by simp [and_assoc])

end

instance : DecidableEq Value := decEq

/-- A natural number as a value, at double precision if it has more than 64 bits. -/
def ofNat (n : Nat) : Value :=
  if h : Exact n then .number (.whole n h) else .number (.double (Binary64.ofNat n))

def string? : Value → Option String
  | string s => some s
  | _ => none

def items? : Value → Option (List Value)
  | array items => some items
  | _ => none

def members? : Value → Option (List (String × Value))
  | object members => some members
  | _ => none

def number? : Value → Option Number
  | number n => some n
  | _ => none

def present? : Value → Option Value
  | null => none
  | v => some v

/-- Puts a member in its place among members in the order of their names. A member of the same
name gives way. -/
def place {α : Type} (name : String) (v : α) : List (String × α) → List (String × α)
  | [] => [(name, v)]
  | (other, w) :: rest =>
    if name < other then (name, v) :: (other, w) :: rest
    else if name = other then (name, v) :: rest
    else (other, w) :: place name v rest

/-- The members in the order of their names, the last of those with one name. -/
def sortMembers {α : Type} (members : List (String × α)) : List (String × α) :=
  members.foldl (fun sorted m => place m.1 m.2 sorted) []

mutual

def settle : Value → Value
  | null => null
  | bool b => bool b
  | number n => number n
  | string s => string s
  | array items => array (settleItems items)
  | object members => object (sortMembers (settleMembers members))

def settleItems : List Value → List Value
  | [] => []
  | v :: rest => v.settle :: settleItems rest

def settleMembers : List (String × Value) → List (String × Value)
  | [] => []
  | (name, v) :: rest => (name, v.settle) :: settleMembers rest

end

mutual

/-- How deeply arrays and objects are nested in a value. -/
def depth : Value → Nat
  | null => 0
  | bool _ => 0
  | number _ => 0
  | string _ => 0
  | array items => depthOfItems items + 1
  | object members => depthOfMembers members + 1

def depthOfItems : List Value → Nat
  | [] => 0
  | v :: rest => max v.depth (depthOfItems rest)

def depthOfMembers : List (String × Value) → Nat
  | [] => 0
  | (_, v) :: rest => max v.depth (depthOfMembers rest)

end

end Value

end PoolUplink.Json
