import PoolUplink.Json.Shape
import PoolUplink.Settings.Basic

/-!
# Settings as a document

Settings are written as a JSON record, and so is each pool among them. Members that are left out
keep their standard; a pool needs both of its own.
-/

set_option autoImplicit false
set_option relaxedAutoImplicit false

namespace PoolUplink.Settings.Document

open PoolUplink.Json

structure PoolDraft where
  host : Option String
  number : Option Nat

def poolMembers : List (Shape.Member PoolDraft) := [
  Shape.slot "host" PoolDraft.host (fun v d => { d with host := some v }) Shape.text,
  Shape.slot "port" PoolDraft.number (fun v d => { d with number := some v })
    (Shape.natural UInt16.size)]

def pool : Reader Endpoint :=
  (Shape.record poolMembers ⟨none, none⟩).filterMap fun d =>
    match d.host, d.number with
    | some host, some number => some ⟨host, number.toUInt16⟩
    | _, _ => none

structure Draft where
  pools : Option (List Endpoint)
  submitResponse : Option Bool
  dialSeconds : Option Nat
  handshakeSeconds : Option Nat
  queueCapacity : Option Nat
  userAgent : Option String

def Draft.empty : Draft := ⟨none, none, none, none, none, none⟩

/-- The members of the settings in their own order. -/
def members : List (Shape.Member Draft) := [
  Shape.slot "pools" Draft.pools (fun v d => { d with pools := some v }) (Shape.list pool),
  Shape.slot "submit_response_from_server" Draft.submitResponse
    (fun v d => { d with submitResponse := some v }) Shape.flag,
  Shape.slot "dial_timeout_secs" Draft.dialSeconds
    (fun v d => { d with dialSeconds := some v }) (Shape.natural UInt64.size),
  Shape.slot "handshake_timeout_secs" Draft.handshakeSeconds
    (fun v d => { d with handshakeSeconds := some v }) (Shape.natural UInt64.size),
  Shape.slot "event_channel_capacity" Draft.queueCapacity
    (fun v d => { d with queueCapacity := some v }) (Shape.natural UInt64.size),
  Shape.slot "user_agent" Draft.userAgent (fun v d => { d with userAgent := some v }) Shape.text]

/-- The settings with the standard for what has not been read. -/
def Draft.settings (d : Draft) : Settings where
  pools := d.pools.getD standard.pools
  submitResponse := d.submitResponse.getD standard.submitResponse
  dialSeconds := (d.dialSeconds.map Nat.toUInt64).getD standard.dialSeconds
  handshakeSeconds := (d.handshakeSeconds.map Nat.toUInt64).getD standard.handshakeSeconds
  queueCapacity := (d.queueCapacity.map Nat.toUInt64).getD standard.queueCapacity
  userAgent := d.userAgent.getD standard.userAgent

def readBytes (document : List UInt8) : Except Refusal Settings :=
  match (Shape.record members Draft.empty).run document with
  | .error fault => .error (.document fault)
  | .ok draft => validate draft.settings

def read (document : String) : Except Refusal Settings :=
  readBytes (Ascii.bytes document)

end PoolUplink.Settings.Document
