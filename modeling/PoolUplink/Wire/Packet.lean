import PoolUplink.Wire.Item

/-!
# Packets

What a pool puts on its stream: lines, and frames with their bodies. Reading undoes this up to the
bodies, which it skips; bodies may hold line ends and marks.
-/

set_option autoImplicit false
set_option relaxedAutoImplicit false

namespace PoolUplink.Wire

/-- One thing that a pool puts on its stream. -/
inductive Packet where
  /-- A line without its line end, which does not start like a frame. -/
  | line (text : List UInt8) (single : Inbound.lineEnd ∉ text)
      (unmarked : text.head? ≠ some Frame.mark)
  | frame (frame : Frame)
  deriving DecidableEq, Repr

namespace Packet

def bytes : Packet → List UInt8
  | line text _ _ => text ++ [Inbound.lineEnd]
  | frame f => f.bytes

def item : Packet → Item
  | line text _ _ => .line (text ++ [Inbound.lineEnd])
  | frame f => .frame f.header

end Packet

end PoolUplink.Wire
