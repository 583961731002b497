import PoolUplink.Fault

/-!
# What a pool sends

A pool's bytes arrive in chunks. Reading takes a chunk only when the bytes before it are used up
and more are needed; what a read does not use stays held for the next one. After the last chunk
the stream ends, fails, or stays silent.
-/

set_option autoImplicit false
set_option relaxedAutoImplicit false

namespace PoolUplink.Wire

inductive Ending where
  | closed
  | torn
  | silent
  deriving DecidableEq, Repr

inductive Reading (α : Type) where
  | got (result : α)
  | failed (fault : Fault)
  | waiting
  deriving DecidableEq, Repr

/-- The fault of a read that meets the end, given the one of an orderly end. -/
def Ending.reading {α : Type} (orderly : Fault) : Ending → Reading α
  | .closed => .failed orderly
  | .torn => .failed (.stream "connection reset")
  | .silent => .waiting

/-- The fault of a read of fixed size that the end cuts off. -/
def cutOff : Fault := .stream "early eof"

structure Inbound where
  /-- Bytes of the chunk begun that no read has used. -/
  held : List UInt8
  chunks : List (List UInt8)
  ending : Ending
  /-- How many chunks have been begun, empty ones left out. -/
  begun : Nat
  deriving DecidableEq, Repr

namespace Inbound

def ofChunks (chunks : List (List UInt8)) (ending : Ending) : Inbound :=
  ⟨[], chunks, ending, 0⟩

def remaining (s : Inbound) : List UInt8 :=
  s.held ++ s.chunks.flatten

/-- The first held byte, beginning chunks until there is one. -/
def fill (ending : Ending) (begun : Nat) : List UInt8 → List (List UInt8) → Inbound
  | b :: held, chunks => ⟨b :: held, chunks, ending, begun⟩
  | [], [] => ⟨[], [], ending, begun⟩
  | [], [] :: chunks => fill ending begun [] chunks
  | [], (b :: held) :: chunks => ⟨b :: held, chunks, ending, begun + 1⟩

/-- Looks at the next byte and leaves it to be read. -/
def peek (s : Inbound) : Reading UInt8 × Inbound :=
  let t := fill s.ending s.begun s.held s.chunks
  match t.held with
  | b :: _ => (.got b, t)
  | [] => (s.ending.reading .disconnected, t)

def lineEnd : UInt8 := 0x0A

def splitLine? (bytes : List UInt8) : Option (List UInt8 × List UInt8) :=
  match bytes.dropWhile (· != lineEnd) with
  | [] => none
  | b :: rest => some (bytes.takeWhile (· != lineEnd) ++ [b], rest)

/-- Reads on to the line end, behind the bytes already taken into the line. -/
def lineFrom (ending : Ending) (begun : Nat) (taken held : List UInt8) :
    List (List UInt8) → Reading (List UInt8) × Inbound
  | [] =>
    match splitLine? held with
    | some (front, rest) => (.got (taken ++ front), ⟨rest, [], ending, begun⟩)
    | none => (ending.reading .disconnected, ⟨[], [], ending, begun⟩)
  | chunk :: chunks =>
    match splitLine? held with
    | some (front, rest) => (.got (taken ++ front), ⟨rest, chunk :: chunks, ending, begun⟩)
    | none =>
      lineFrom ending (if chunk.isEmpty then begun else begun + 1) (taken ++ held) chunk chunks

def line (s : Inbound) : Reading (List UInt8) × Inbound :=
  lineFrom s.ending s.begun [] s.held s.chunks

def exactFrom (orderly : Fault) (ending : Ending) (begun n : Nat) (taken held : List UInt8) :
    List (List UInt8) → Reading (List UInt8) × Inbound
  | [] =>
    -- the length of what is held is not asked for: it may be far more than `n`
    if (held.take n).length = n then
      (.got (taken ++ held.take n), ⟨held.drop n, [], ending, begun⟩)
    else (ending.reading orderly, ⟨[], [], ending, begun⟩)
  | chunk :: chunks =>
    if (held.take n).length = n then
      (.got (taken ++ held.take n), ⟨held.drop n, chunk :: chunks, ending, begun⟩)
    else
      exactFrom orderly ending (if chunk.isEmpty then begun else begun + 1) (n - held.length)
        (taken ++ held) chunk chunks

def exact (s : Inbound) (n : Nat) : Reading (List UInt8) × Inbound :=
  exactFrom cutOff s.ending s.begun n [] s.held s.chunks

def discard (s : Inbound) (n : Nat) : Reading Unit × Inbound :=
  match exactFrom .disconnected s.ending s.begun n [] s.held s.chunks with
  | (.got _, t) => (.got (), t)
  | (.failed fault, t) => (.failed fault, t)
  | (.waiting, t) => (.waiting, t)

end Inbound

end PoolUplink.Wire
