import PoolUplink.Json.Literal
import PoolUplink.Json.Numeral

/-!
# Reading JSON

Readers for arrays, objects and whole values. The loops over items and members take the reader of
one of them as an argument, so that documents of a fixed shape are read by the same loops.
-/

set_option autoImplicit false
set_option relaxedAutoImplicit false

namespace PoolUplink.Json

open PoolUplink.Json.Ascii

namespace Reader

/-- A reader that first takes off blanks and then sees the first byte and what is behind it. -/
def onByte {α : Type}
    (f : (b : UInt8) → (rest : List UInt8) → Except Fault (Step α (b :: rest))) : Reader α :=
  fun input =>
    match h : skipSpace input with
    | [] => .error .truncated
    | b :: rest =>
      match f b rest with
      | .error fault => .error fault
      | .ok s => .ok (s.widen (h ▸ skipSpace_length_le input))

/-- Reads items up to the closing bracket, behind those already read in reverse. -/
def itemsOn {α : Type} (item : Reader α) (before : List α) (input : List UInt8) :
    Except Fault (List α × List UInt8) :=
  match item input with
  | .error fault => .error fault
  | .ok s =>
    match _h : skipSpace s.rest with
    | [] => .error .truncated
    | b :: rest =>
      if b = closeBracket then .ok ((s.result :: before).reverse, rest)
      else if b = comma then itemsOn item (s.result :: before) rest
      else .error .malformed
termination_by input.length
decreasing_by
  have h1 := length_lt_of_skipSpace _h
  have h2 := s.shorter
  omega

private theorem itemsOn_length_lt {α : Type} {item : Reader α} {before out : List α}
    {input rest : List UInt8} (h : itemsOn item before input = .ok (out, rest)) :
    rest.length < input.length := by
  fun_induction itemsOn item before input with
  | case1 => cases h
  | case2 => cases h
  | case3 before input s hs tail hsp =>
    cases h
    have h1 := length_lt_of_skipSpace hsp
    have h2 := s.shorter
    omega
  | case4 before input s hs tail hsp _ ih =>
    have h0 := ih h
    have h1 := length_lt_of_skipSpace hsp
    have h2 := s.shorter
    omega
  | case5 => cases h

def items {α : Type} (item : Reader α) : Reader (List α) := fun input =>
  match h : skipSpace input with
  | [] => .error .truncated
  | b :: rest =>
    if b = closeBracket then .ok ⟨[], rest, length_lt_of_skipSpace h⟩
    else match hi : itemsOn item [] input with
      | .error fault => .error fault
      | .ok (out, rest) => .ok ⟨out, rest, itemsOn_length_lt hi⟩

def name : Reader String :=
  onByte fun b rest =>
    if b = quote then
      match Literal.read rest with
      | .error fault => .error fault
      | .ok s => .ok (s.behind b)
    else .error .malformed

/-- Reads members up to the closing brace. What a member does to the state is read by `member`
from behind its name. -/
def membersOn {σ : Type} (member : σ → String → Reader σ) (state : σ) (input : List UInt8) :
    Except Fault (σ × List UInt8) :=
  match name input with
  | .error fault => .error fault
  | .ok n =>
    match member state n.result n.rest with
    | .error fault => .error fault
    | .ok s =>
      match _h : skipSpace s.rest with
      | [] => .error .truncated
      | b :: rest =>
        if b = closeBrace then .ok (s.result, rest)
        else if b = comma then membersOn member s.result rest
        else .error .malformed
termination_by input.length
decreasing_by
  have h1 := length_lt_of_skipSpace _h
  have h2 := s.shorter
  have h3 := n.shorter
  omega

theorem membersOn_length_lt {σ : Type} {member : σ → String → Reader σ} {state out : σ}
    {input rest : List UInt8} (h : membersOn member state input = .ok (out, rest)) :
    rest.length < input.length := by
  fun_induction membersOn member state input with
  | case1 => cases h
  | case2 => cases h
  | case3 => cases h
  | case4 state input n hn s hs tail hsp =>
    cases h
    have h1 := length_lt_of_skipSpace hsp
    have h2 := s.shorter
    have h3 := n.shorter
    omega
  | case5 state input n hn s hs tail hsp _ ih =>
    have h0 := ih h
    have h1 := length_lt_of_skipSpace hsp
    have h2 := s.shorter
    have h3 := n.shorter
    omega
  | case6 => cases h

def members {σ : Type} (member : σ → String → Reader σ) (start : σ) : Reader σ := fun input =>
  match h : skipSpace input with
  | [] => .error .truncated
  | b :: rest =>
    if b = closeBrace then .ok ⟨start, rest, length_lt_of_skipSpace h⟩
    else match hm : membersOn member start input with
      | .error fault => .error fault
      | .ok (out, rest) => .ok ⟨out, rest, membersOn_length_lt hm⟩

def afterColon {α : Type} (r : Reader α) : Reader α := fun input =>
  match pastColon input with
  | .error fault => .error fault
  | .ok c =>
    match r c.rest with
    | .error fault => .error fault
    | .ok s => .ok (s.widen (Nat.le_of_lt c.shorter))

def word {α : Type} (letters : String) (meaning : α) : Reader α := fun input =>
  match input with
  | [] => .error .truncated
  | _ :: rest =>
    match h : keyword (bytes letters) rest with
    | .error fault => .error fault
    | .ok rest => .ok ⟨meaning, rest, Nat.lt_succ_of_le (keyword_length_le h)⟩

end Reader

namespace Value

/-- Reads a value, given readers for what follows an opening bracket and an opening brace. -/
def readWith (array : Reader (List Value)) (object : Reader (List (String × Value))) :
    Reader Value :=
  Reader.onByte fun b rest =>
    let inside {α : Type} (r : Reader α) (f : α → Value) : Except Fault (Step Value (b :: rest)) :=
      match r rest with
      | .error fault => .error fault
      | .ok s => .ok ((s.map f).behind b)
    if b = openBracket then inside array .array
    else if b = openBrace then inside object .object
    else if b = quote then inside Literal.read .string
    else if b = 0x6E then Reader.word "ull" .null (b :: rest)
    else if b = 0x74 then Reader.word "rue" (.bool true) (b :: rest)
    else if b = 0x66 then Reader.word "alse" (.bool false) (b :: rest)
    else if b = minus || (digit? b).isSome then Reader.map .number Numeral.read (b :: rest)
    else .error .malformed

def member (value : Reader Value) (before : List (String × Value)) (name : String) :
    Reader (List (String × Value)) :=
  Reader.afterColon (value.map fun v => (name, v) :: before)

/-- Reads a value in which at most `depth` arrays and objects are nested. -/
def readTo : (depth : Nat) → Reader Value
  | 0 => readWith (Reader.refuse .malformed) (Reader.refuse .malformed)
  | depth + 1 =>
    readWith (Reader.items (readTo depth))
      ((Reader.members (member (readTo depth)) []).map List.reverse)

def depthLimit : Nat := 127

def reader : Reader Value := readTo depthLimit

/-- The value that an input consists of, its members as they are written. -/
def read (input : List UInt8) : Except Fault Value := reader.run input

end Value

end PoolUplink.Json
