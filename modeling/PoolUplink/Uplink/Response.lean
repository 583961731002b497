import PoolUplink.Json.Inspect
import PoolUplink.Uplink.State

/-!
# Reactions to a pool's lines

What a line changes and what is logged about it. A line that is no message is logged and dropped.
A fault leaves the uplink as it was; the caller closes it.
-/

set_option autoImplicit false
set_option relaxedAutoImplicit false

namespace PoolUplink

open PoolUplink.Json

structure Subscription where
  sessionId : UInt32
  width : Nat
  deriving DecidableEq, Repr

namespace Subscription

/-- The fewest extranonce bytes that can be shared out between miners. -/
def leastWidth : Nat := 6

def fault (what : String) (error : Option Value) : Fault :=
  .subscriptionFailed (what ++ ", pool error: " ++ Inspect.text error)

/-- The width that a number states: its double toward zero, within 64 bits. -/
def widthOf (n : Number) : Int :=
  max Int64.minValue.toInt (min Int64.maxValue.toInt n.toDouble.truncate)

/-- The subscription in a result: an array with the id in hexadecimal at its second place and the
number of extranonce bytes at its third. -/
def ofResult (result error : Option Value) : Except Fault Subscription :=
  match result.bind Value.items? with
  | none => .error (fault "result is not an array" error)
  | some items =>
    match items with
    | _ :: id :: width :: _ =>
      match id.string? with
      | none => .error (fault "session id is not a string" error)
      | some text =>
        match Text.Numeral.unsigned? 16 UInt32.size text.toList with
        | none => .error (fault "session id is not hex" error)
        | some sessionId =>
          match width.number? with
          | none => .error (fault "extranonce2 size is not a number" error)
          | some n =>
            if widthOf n < leastWidth then .error (.extranonceTooShort (widthOf n) leastWidth)
            else .ok ⟨sessionId.toUInt32, (widthOf n).toNat⟩
    | _ => .error (fault "result is missing items" error)

end Subscription

namespace VersionMask

/-- The text without the marks of a hexadecimal number in front. -/
def dropMarks : List Char → List Char
  | '0' :: 'x' :: rest => dropMarks rest
  | cs => cs

def ofText? (s : String) : Option UInt32 :=
  (Text.Numeral.unsigned? 16 UInt32.size (dropMarks s.toList)).map Nat.toUInt32

end VersionMask

namespace Uplink

/-- Notes a version mask that the pool sets. A request of another shape changes nothing. -/
def onVersionMask (u : Uplink) (params : Value) : Uplink × List Log.Record :=
  match params.items? with
  | some (first :: _) =>
    match first.string? with
    | none => (u, [u.note .warn "Version mask is not a string" [("params", params.text)]])
    | some text =>
      match VersionMask.ofText? text with
      | none => (u, [u.note .warn "Version mask is not hex" [("mask", text)]])
      | some mask =>
        ({ u with versionMask := mask },
          [u.note .info "Version mask updated" [("mask", "0x" ++ idText mask)]])
  | _ => (u, [])

def onRequest (u : Uplink) (method : String) (params : Value) : Uplink × List Log.Record :=
  if method = "mining.set_version_mask" then u.onVersionMask params
  else if method = "mining.set_difficulty" || method = "mining.notify" then
    (u, [⟨.trace, target, "Ignoring pool request during handshake", [("method", method)]⟩])
  else (u, [u.note .info "Unhandled pool request" [("method", method)]])

def onSubscribe (u : Uplink) (result error : Option Value) :
    Except Fault Uplink × List Log.Record :=
  match Subscription.ofResult result error with
  | .error fault => (.error fault, [])
  | .ok s =>
    (.ok { u with
        sessionId := s.sessionId
        width := s.width
        answered := { u.answered with subscribe := true }
        phase := .subscribed },
      [u.note .debug "Subscribed"
        [("session_id", idText s.sessionId), ("extranonce2_size", Text.Numeral.text s.width)]])

/-- Notes the configure response, whatever it says. -/
def onConfigure (u : Uplink) (result error : Option Value) : Uplink × List Log.Record :=
  ({ u with answered := { u.answered with configure := true } },
    [u.note .debug "Configure response received"
      [("result", Inspect.text result), ("error", Inspect.text error)]])

def onFeatures (u : Uplink) (result : Option Value) : Uplink × List Log.Record :=
  let (features, problems) := Features.ofResult result
  ({ u with features, answered := { u.answered with features := true } },
    (problems.map fun p => u.note .warn "Get server capabilities failed"
      [("problem", p.message), ("result", Inspect.text result)]) ++
    (if features.versionRolling then []
      else [u.note .warn "Pool server does not support ASICBoost" []]) ++
    (if u.settings.submitResponse && !features.submitResponse then
        [u.note .warn "Pool server does not support sending submit responses to the agent" []]
      else []))

def isTrue : Option Value → Bool
  | some (.bool true) => true
  | _ => false

def onAuthorize (u : Uplink) (result error : Option Value) :
    Except Fault Uplink × List Log.Record :=
  if isTrue result then
    (.ok { u with answered := { u.answered with authorize := true } },
      [u.note .info "Authorize success" [("sub_account", u.account)]])
  else
    (.error (.authorizationFailed
      ("result: " ++ Inspect.text result ++ ", pool error: " ++ Inspect.text error)), [])

/-- Ends the handshake once all responses are there. -/
def promote (u : Uplink) : Uplink × List Log.Record :=
  if u.answered.complete && u.phase == .subscribed then
    ({ u with phase := .authorized }, [u.note .debug "Handshake complete" []])
  else (u, [])

def onExchange (u : Uplink) (exchange : Rpc.Setup.Exchange) (result error : Option Value) :
    Except Fault Uplink × List Log.Record :=
  match exchange with
  | .subscribe => u.onSubscribe result error
  | .configure => let (v, records) := u.onConfigure result error; (.ok v, records)
  | .features => let (v, records) := u.onFeatures result; (.ok v, records)
  | .authorize => u.onAuthorize result error

/-- Reacts to a response. The id, if it is a text, tells which exchange it belongs to. -/
def onResponse (u : Uplink) (id : Option String) (result error : Option Value) :
    Except Fault Uplink × List Log.Record :=
  let (reaction, records) := match id.bind Rpc.Setup.Exchange.ofId? with
    | some exchange => u.onExchange exchange result error
    | none => (.ok u, [u.note .info "Unexpected pool response" [("id", Inspect.quoted id)]])
  match reaction with
  | .error fault => (.error fault, records)
  | .ok v => let (w, more) := v.promote; (.ok w, records ++ more)

def onMessage (u : Uplink) (m : Rpc.Message) : Except Fault Uplink × List Log.Record :=
  match m with
  | .request _ method params => let (v, records) := u.onRequest method params; (.ok v, records)
  | .response _ result error => u.onResponse m.id? result error

/-- Reacts to a line. What exactly is wrong with one that is no message is not said. -/
def onLine (u : Uplink) (line : List UInt8) : Except Fault Uplink × List Log.Record :=
  match Rpc.Message.ofLine line with
  | .ok m => u.onMessage m
  | .error _ =>
    (.ok u, [u.note .info "JSON decode failed, ignoring line"
      [("error", "<json>"), ("line", Link.lineText line)]])

end Uplink

end PoolUplink
