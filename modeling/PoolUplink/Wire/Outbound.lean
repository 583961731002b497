import PoolUplink.Fault

/-!
# What the agent sends

Lines go to the pool through a buffer. A line that does not fit behind the held bytes has them
sent first; a line as long as the buffer is sent without being held. Every line is followed by a
flush. The pool may stop accepting bytes at some point; what it has not accepted by then stays
held, and every later flush fails again.
-/

set_option autoImplicit false
set_option relaxedAutoImplicit false

namespace PoolUplink.Wire

structure Outbound where
  /-- How many more bytes the pool accepts, if there is a limit. -/
  room : Option Nat
  received : List UInt8
  /-- Bytes taken from the agent and not yet sent. -/
  held : List UInt8
  shut : Bool
  deriving DecidableEq, Repr

namespace Outbound

def fresh (room : Option Nat) : Outbound := ⟨room, [], [], false⟩

def capacity : Nat := 8192

def refused : Fault := .stream "broken pipe"

/-- Offers bytes to the pool. Returns the stream and the bytes that were not accepted. -/
def offer (s : Outbound) (bytes : List UInt8) : Outbound × List UInt8 :=
  match s.room with
  | none => ({ s with received := s.received ++ bytes }, [])
  | some room =>
    ({ s with room := some (room - bytes.length), received := s.received ++ bytes.take room },
      bytes.drop room)

def flush (s : Outbound) : Except Fault Unit × Outbound :=
  let (t, unsent) := s.offer s.held
  (if unsent.isEmpty then .ok () else .error refused, { t with held := unsent })

/-- Takes a line behind no held bytes: short ones are held, long ones sent. If the pool accepts
part of a long line, the rest of it is taken as a line of its own length. -/
def take (s : Outbound) (line : List UInt8) : Except Fault Unit × Outbound :=
  if line.length < capacity then (.ok (), { s with held := s.held ++ line })
  else
    let (t, unsent) := s.offer line
    if unsent.length < capacity then (.ok (), { t with held := t.held ++ unsent })
    else (.error refused, t)

def writeLine (s : Outbound) (line : List UInt8) : Except Fault Unit × Outbound :=
  let makeRoom : Except Fault Unit × Outbound :=
    if s.held.length + line.length > capacity then s.flush else (.ok (), s)
  match makeRoom with
  | (.error fault, t) => (.error fault, t)
  | (.ok (), t) =>
    match t.take line with
    | (.error fault, u) => (.error fault, u)
    | (.ok (), u) => u.flush

/-- Sends the held bytes and shuts the stream down. A stream that cannot be flushed stays open. -/
def shutdown (s : Outbound) : Outbound :=
  match s.flush with
  | (.ok (), t) => { t with shut := true }
  | (.error _, t) => t

end Outbound

end PoolUplink.Wire
