import PoolUplink.Wire.Inbound

/-!
# A flat stream

The reads of a stream, said of its bytes as one list without chunks.
-/

set_option autoImplicit false
set_option relaxedAutoImplicit false

namespace PoolUplink.Wire

/-- A position in a stream: the bytes ahead, and what follows them. -/
structure Cursor where
  ahead : List UInt8
  ending : Ending
  deriving DecidableEq, Repr

namespace Cursor

def exhausted (c : Cursor) : Cursor := { c with ahead := [] }

def peek (c : Cursor) : Reading UInt8 :=
  match c.ahead with
  | b :: _ => .got b
  | [] => c.ending.reading .disconnected

def line (c : Cursor) : Reading (List UInt8) × Cursor :=
  if Inbound.lineEnd ∈ c.ahead then
    let length := c.ahead.idxOf Inbound.lineEnd + 1
    (.got (c.ahead.take length), { c with ahead := c.ahead.drop length })
  else (c.ending.reading .disconnected, c.exhausted)

def exact (c : Cursor) (n : Nat) : Reading (List UInt8) × Cursor :=
  if n ≤ c.ahead.length then
    (.got (c.ahead.take n), { c with ahead := c.ahead.drop n })
  else (c.ending.reading Wire.cutOff, c.exhausted)

/-- Moves past `n` bytes, or to the end if there are fewer, and reports none of them. -/
def discard (c : Cursor) (n : Nat) : Reading Unit × Cursor :=
  if n ≤ c.ahead.length then (.got (), { c with ahead := c.ahead.drop n })
  else (c.ending.reading .disconnected, c.exhausted)

end Cursor

def Inbound.cursor (s : Inbound) : Cursor := ⟨s.remaining, s.ending⟩

end PoolUplink.Wire
