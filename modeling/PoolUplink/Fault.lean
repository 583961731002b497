import PoolUplink.Span

/-!
# Faults of an uplink

Everything that can go wrong between the agent and a pool. All but a closed uplink end the
handshake in which they arise.
-/

set_option autoImplicit false
set_option relaxedAutoImplicit false

namespace PoolUplink

inductive Fault where
  | stream (reason : String)
  | dialFailed (reason : String)
  | dialTimeout (address : String) (limit : Span)
  | notConnected
  | disconnected
  /-- A frame declares a length that does not even cover its header. -/
  | brokenFrame (length : UInt16)
  | subscriptionFailed (reason : String)
  | extranonceTooShort (size : Int) (least : Nat)
  | authorizationFailed (reason : String)
  | unknownPool (index : Nat)
  | handshakeTimeout (limit : Span)
  | shutdown
  | closed
  deriving DecidableEq, Repr

namespace Fault

def message : Fault → String
  | stream reason => "I/O error: " ++ reason
  | dialFailed reason => "Connection failed: " ++ reason
  | dialTimeout address limit => "Connection to " ++ address ++ " timed out after " ++ limit.text
  | notConnected => "Connection closed"
  | disconnected => "Connection lost"
  | brokenFrame length => "Broken ex-message: declared length " ++
      Text.Numeral.text length.toNat ++ " is shorter than its header"
  | subscriptionFailed reason => "Subscription failed: " ++ reason
  | extranonceTooShort size least => "Extranonce2 is too short (" ++
      String.ofList (Text.Numeral.signed size) ++ " bytes), need at least " ++
      Text.Numeral.text least ++ " bytes"
  | authorizationFailed reason => "Authorization failed: " ++ reason
  | unknownPool index => "No pool configured at index " ++ Text.Numeral.text index
  | handshakeTimeout limit => "Handshake timed out after " ++ limit.text
  | shutdown => "Shutdown requested"
  | closed => "Upstream session is closed"

end Fault

end PoolUplink
