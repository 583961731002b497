import PoolUplink.Json.Skim

/-!
# Reading into a shape

A document of a known shape is checked while it is read, so that of several faults the first in
reading order counts. A record is written as an object of its members in any order, or as an array
of them in their own order.
-/

set_option autoImplicit false
set_option relaxedAutoImplicit false

namespace PoolUplink.Json.Shape

open PoolUplink.Json.Ascii

/-- What is wrong with an input that starts with a value of another shape than expected: that it
is misshapen, unless the value is not even JSON. Arrays and objects are not looked into. -/
def mismatch (input : List UInt8) : Fault :=
  match Value.readWith (Reader.refuse .misshapen) (Reader.refuse .misshapen) input with
  | .ok _ => .misshapen
  | .error fault => fault

def text : Reader String :=
  Reader.onByte fun b rest =>
    if b = quote then
      match Literal.read rest with
      | .error fault => .error fault
      | .ok s => .ok (s.behind b)
    else .error (mismatch (b :: rest))

def flag : Reader Bool :=
  Reader.onByte fun b rest =>
    if b = 0x74 then Reader.word "rue" true (b :: rest)
    else if b = 0x66 then Reader.word "alse" false (b :: rest)
    else .error (mismatch (b :: rest))

def natural (bound : Nat) : Reader Nat :=
  Reader.onByte fun b rest =>
    if b = minus || (digit? b).isSome then
      Numeral.read.filterMap (fun n =>
        match n with
        | .whole (.ofNat k) _ => if k < bound then some k else none
        | _ => none) (b :: rest)
    else .error (mismatch (b :: rest))

def list {α : Type} (item : Reader α) : Reader (List α) :=
  Reader.onByte fun b rest =>
    if b = openBracket then
      match Reader.items item rest with
      | .error fault => .error fault
      | .ok s => .ok (s.behind b)
    else .error (mismatch (b :: rest))

/-- Reads on behind an item: the next one if a comma follows, and no other if there is no field
left for it. -/
def fieldsOn {σ : Type} (state : σ) (input : List UInt8) :
    List (σ → Reader σ) → Except Fault (Step σ input)
  | [] =>
    match h : skipSpace input with
    | [] => .error .truncated
    | b :: rest =>
      if b = closeBracket then .ok ⟨state, rest, length_lt_of_skipSpace h⟩ else .error .malformed
  | field :: fields =>
    match h : skipSpace input with
    | [] => .error .truncated
    | b :: rest =>
      if b = closeBracket then .ok ⟨state, rest, length_lt_of_skipSpace h⟩
      else if b = comma then
        match field state rest with
        | .error fault => .error fault
        | .ok s =>
          match fieldsOn s.result s.rest fields with
          | .error fault => .error fault
          | .ok t => .ok (t.widen
              (Nat.le_of_lt (Nat.lt_trans s.shorter (length_lt_of_skipSpace h))))
      else .error .malformed

/-- Reads the fields of a record by position, behind an opening bracket. The array may stop
early. -/
def fields {σ : Type} (state : σ) : List (σ → Reader σ) → Reader σ
  | [], input => fieldsOn state input []
  | field :: rest, input =>
    match h : skipSpace input with
    | [] => .error .truncated
    | b :: behind =>
      if b = closeBracket then .ok ⟨state, behind, length_lt_of_skipSpace h⟩
      else match field state input with
        | .error fault => .error fault
        | .ok s =>
          match fieldsOn s.result s.rest rest with
          | .error fault => .error fault
          | .ok t => .ok (t.widen (Nat.le_of_lt s.shorter))

structure Member (σ : Type) where
  name : String
  seen : σ → Bool
  read : σ → Reader σ

/-- Reads a member by name. A member may not be repeated; an unknown one is skipped. -/
def member {σ : Type} (known : List (Member σ)) (state : σ) (name : String) : Reader σ :=
  match known.find? (·.name == name) with
  | some m =>
    if m.seen state then Reader.refuse .misshapen else Reader.afterColon (m.read state)
  | none => Reader.afterColon (Skim.value.map fun _ => state)

/-- Reads a record as an array or an object. -/
def record {σ : Type} (known : List (Member σ)) (start : σ) : Reader σ :=
  Reader.onByte fun b rest =>
    let inside (r : Reader σ) : Except Fault (Step σ (b :: rest)) :=
      match r rest with
      | .error fault => .error fault
      | .ok s => .ok (s.behind b)
    if b = openBracket then inside (fields start (known.map (·.read)))
    else if b = openBrace then inside (Reader.members (member known) start)
    else .error (mismatch (b :: rest))

/-- A member that is kept in an optional part of the state. -/
def slot {σ α : Type} (name : String) (get : σ → Option α) (put : α → σ → σ)
    (value : Reader α) : Member σ :=
  ⟨name, fun s => (get s).isSome, fun s => value.map fun v => put v s⟩

end PoolUplink.Json.Shape
