import PoolUplink.Json.Ascii

/-!
# Reading steps

A reader takes something off the front of its input or says what is wrong with it. Each step
carries the proof that it leaves a shorter rest, which bounds every loop of readers.
-/

set_option autoImplicit false
set_option relaxedAutoImplicit false

namespace PoolUplink.Json

inductive Fault where
  | malformed
  | truncated
  /-- It is JSON of the wrong shape. -/
  | misshapen
  deriving DecidableEq, Repr

/-- What a reader leaves: its result and a rest shorter than the input. -/
structure Step (α : Type) (input : List UInt8) where
  result : α
  rest : List UInt8
  shorter : rest.length < input.length

abbrev Reader (α : Type) := (input : List UInt8) → Except Fault (Step α input)

namespace Step

def map {α β : Type} {input : List UInt8} (f : α → β) (s : Step α input) : Step β input :=
  ⟨f s.result, s.rest, s.shorter⟩

def widen {α : Type} {input outer : List UInt8} (s : Step α input)
    (h : input.length ≤ outer.length) : Step α outer :=
  ⟨s.result, s.rest, Nat.lt_of_lt_of_le s.shorter h⟩

def behind {α : Type} {input : List UInt8} (b : UInt8) (s : Step α input) : Step α (b :: input) :=
  s.widen (Nat.le_succ _)

end Step

namespace Reader

def map {α β : Type} (f : α → β) (r : Reader α) : Reader β := fun input =>
  match r input with
  | .ok s => .ok (s.map f)
  | .error fault => .error fault

/-- Refuses some results of a reader as misshapen. -/
def filterMap {α β : Type} (f : α → Option β) (r : Reader α) : Reader β := fun input =>
  match r input with
  | .error fault => .error fault
  | .ok s =>
    match f s.result with
    | some b => .ok ⟨b, s.rest, s.shorter⟩
    | none => .error .misshapen

def refuse {α : Type} (fault : Fault) : Reader α := fun _ => .error fault

/-- Reads the whole input: after the result only blanks may follow. -/
def run {α : Type} (r : Reader α) (input : List UInt8) : Except Fault α :=
  match r input with
  | .error fault => .error fault
  | .ok s => if (Ascii.skipSpace s.rest).isEmpty then .ok s.result else .error .malformed

end Reader

def keyword : List UInt8 → List UInt8 → Except Fault (List UInt8)
  | [], input => .ok input
  | _ :: _, [] => .error .truncated
  | k :: word, b :: rest => if b = k then keyword word rest else .error .malformed

theorem keyword_length_le {word input rest : List UInt8} (h : keyword word input = .ok rest) :
    rest.length ≤ input.length := by
  induction word generalizing input with
  | nil => cases h; exact Nat.le_refl _
  | cons k word ih =>
    cases input with
    | nil => cases h
    | cons b input =>
      simp only [keyword] at h
      split at h
      · exact Nat.le_succ_of_le (ih h)
      · cases h

def pastColon (input : List UInt8) : Except Fault (Step Unit input) :=
  match h : Ascii.skipSpace input with
  | [] => .error .truncated
  | b :: rest =>
    if b = Ascii.colon then .ok ⟨(), rest, Ascii.length_lt_of_skipSpace h⟩ else .error .malformed

end PoolUplink.Json
