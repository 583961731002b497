import PoolUplink.Json.Step
import PoolUplink.Settings.Endpoint

/-!
# Settings

What an agent can be told: its pools, and how it deals with them.
-/

set_option autoImplicit false
set_option relaxedAutoImplicit false

namespace PoolUplink

structure Settings where
  pools : List Endpoint
  /-- Whether it is worth a warning that a pool does not answer submitted shares itself. Pools are
  asked the same either way. -/
  submitResponse : Bool
  dialSeconds : UInt64
  handshakeSeconds : UInt64
  queueCapacity : UInt64
  userAgent : String
  deriving DecidableEq, Repr

namespace Settings

def standard : Settings where
  pools := []
  submitResponse := false
  dialSeconds := 15
  handshakeSeconds := 30
  queueCapacity := 256
  userAgent := "stratum-agent/0.1.0"

inductive Refusal where
  | invalidPool (item : String)
  | invalidValue (key value : String)
  | noPools
  | unreadable (reason : String)
  | document (fault : Json.Fault)
  deriving DecidableEq, Repr

/-- The wording of a refusal. What exactly is wrong with a document is not said. -/
def Refusal.message : Refusal → String
  | invalidPool item => "Invalid pool address: " ++ item
  | invalidValue key value => "Invalid value for " ++ key ++ ": " ++ value
  | noPools => "No pools configured"
  | unreadable reason => "Cannot read config file: " ++ reason
  | document _ => "Invalid config file: <json>"

def validate (s : Settings) : Except Refusal Settings :=
  if s.pools.isEmpty then .error .noPools else .ok s

def endpoint (item : String) : Except Refusal Endpoint :=
  match Endpoint.ofText? item with
  | some e => .ok e
  | none => .error (.invalidPool item)

end Settings

end PoolUplink
