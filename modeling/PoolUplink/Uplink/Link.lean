import PoolUplink.Log.Record
import PoolUplink.Peer
import PoolUplink.Text.Lossy
import PoolUplink.Wire.Inbound
import PoolUplink.Wire.Outbound

/-!
# Links

A link is a stream to a pool in both directions. The lines that pass over it are logged.
-/

set_option autoImplicit false
set_option relaxedAutoImplicit false

namespace PoolUplink

structure Link where
  inbound : Wire.Inbound
  outbound : Wire.Outbound
  peer : Option Peer
  deriving DecidableEq, Repr

namespace Link

def target : String := "stratum_agent::upstream::connection"

/-- The text of a line in a record: without the blanks it ends in, the line end among them. -/
def lineText (line : List UInt8) : String :=
  String.ofList (Text.Blank.trimEnd (Text.Lossy.chars line))

def sending (line : List UInt8) : Log.Record :=
  ⟨.trace, target, "Sending line", [("tx", lineText line)]⟩

def received (line : List UInt8) : Log.Record :=
  ⟨.trace, target, "Received line", [("rx", lineText line)]⟩

def send (link : Link) (line : List UInt8) : Except Fault Unit × Link :=
  let (result, outbound) := link.outbound.writeLine line
  (result, { link with outbound })

def shutdown (link : Link) : Link :=
  { link with outbound := link.outbound.shutdown }

end Link

end PoolUplink
