import PoolUplink.Features
import PoolUplink.Settings.Basic
import PoolUplink.Uplink.Link

/-!
# The state of an uplink

An uplink is the agent's connection to one pool, shared by many miners. Its phase tells how far
the handshake with the pool has come. Everything it does besides changing its own state is noted
as an activity: records, chunks it begins to read, and miners that it takes on.
-/

set_option autoImplicit false
set_option relaxedAutoImplicit false

namespace PoolUplink

inductive Phase where
  | disconnected
  | connecting
  | connected
  | subscribed
  | authorized
  deriving DecidableEq, Repr

namespace Phase

/-- The rank of a phase: progress is upwards. -/
def rank : Phase → Nat
  | disconnected => 0
  | connecting => 1
  | connected => 2
  | subscribed => 3
  | authorized => 4

def name : Phase → String
  | disconnected => "Disconnected"
  | connecting => "Connecting"
  | connected => "Connected"
  | subscribed => "Subscribed"
  | authorized => "Authorized"

def all : List Phase := [disconnected, connecting, connected, subscribed, authorized]

def compare (p q : Phase) : Ordering := Ord.compare p.rank q.rank

def isOpen (p : Phase) : Bool := connected.rank ≤ p.rank

def inHandshake : Phase → Bool
  | connected => true
  | subscribed => true
  | _ => false

end Phase

/-- The link an uplink was last given. A dropped one is kept for what the pool has received. -/
inductive Carrier where
  | absent
  | live (link : Link)
  | dropped (link : Link)
  deriving DecidableEq, Repr

def Carrier.link? : Carrier → Option Link
  | absent => none
  | live link => some link
  | dropped link => some link

/-- A mining device's side of the agent. The tag is the caller's and means nothing here. -/
structure Miner where
  id : UInt32
  tag : Nat
  deriving DecidableEq, Repr

def Miner.text (m : Miner) : String :=
  "AttachDownstream(" ++ Text.Numeral.text m.id.toNat ++ ")"

structure Answered where
  subscribe : Bool
  configure : Bool
  features : Bool
  authorize : Bool
  deriving DecidableEq, Repr

namespace Answered

def nothing : Answered := ⟨false, false, false, false⟩

def complete (a : Answered) : Bool := a.subscribe && a.configure && a.features && a.authorize

end Answered

/-- What a miner is given to reach its uplink by: the index of the pool, and the phase as it is
when the miner gets it. -/
structure Handle where
  poolIndex : Nat
  phase : Phase
  deriving DecidableEq, Repr

/-- One thing an uplink does besides changing its own state. -/
inductive Activity where
  | logged (record : Log.Record)
  /-- It begins to read a chunk, in some phase. -/
  | began (phase : Phase)
  | introduced (miner : Miner) (handle : Handle)
  deriving DecidableEq, Repr

def Activity.record? : Activity → Option Log.Record
  | logged record => some record
  | _ => none

structure Uplink where
  settings : Settings
  account : String
  poolIndex : Nat
  pool : Endpoint
  stopping : Bool
  carrier : Carrier
  /-- The last peer that was known. -/
  peer : Option Peer
  phase : Phase
  answered : Answered
  /-- Whether a handshake has ended. -/
  settled : Bool
  /-- What the pool calls this session. -/
  sessionId : UInt32
  /-- The version bits the pool lets miners roll. -/
  versionMask : UInt32
  /-- The number of extranonce bytes the pool leaves to the agent. -/
  width : Nat
  features : Features
  negotiated : Negotiated
  /-- The miners taken on, one of each id, the latest last. -/
  miners : List Miner
  queue : List Miner
  accepting : Bool
  deriving DecidableEq, Repr

namespace Uplink

/-- A disconnected uplink to the pool at an index. Its queue is one that can be made, of less than
`2 ^ 61` places: settings that ask for more would end the agent here. -/
def create (settings : Settings) (account : String) (index : Nat) : Except Fault Uplink :=
  match settings.pools[index]? with
  | none => .error (.unknownPool index)
  | some pool => .ok {
      settings, account, pool
      poolIndex := index
      stopping := false
      carrier := .absent
      peer := none
      phase := .disconnected
      answered := .nothing
      settled := false
      sessionId := 0
      versionMask := 0
      width := 0
      features := .none
      negotiated := .requested
      miners := []
      queue := []
      accepting := true }

theorem eq_of_create {settings : Settings} {account : String} {index : Nat} {u : Uplink}
    (created : create settings account index = .ok u) :
    ∃ pool, u = ⟨settings, account, index, pool, false, .absent, none, .disconnected, .nothing,
      false, 0, 0, 0, .none, .requested, [], [], true⟩ := by
  unfold create at created
  split at created
  · cases created
  · rename_i pool _
    exact ⟨pool, (Except.ok.inj created).symm⟩

/-- The address of the peer, or the configured one before there is a peer. -/
def address (u : Uplink) : String :=
  (u.peer.map Peer.text).getD u.pool.text

def width? (u : Uplink) : Option Nat :=
  if Phase.subscribed.rank ≤ u.phase.rank then some u.width else none

def attachLink (u : Uplink) (link : Link) : Uplink :=
  { u with
    carrier := .live link
    peer := link.peer.orElse fun _ => u.peer
    phase := .connected }

/-- Shuts the link down and drops it. What has been answered and agreed stays. -/
def close (u : Uplink) : Uplink :=
  { u with
    phase := .disconnected
    carrier := match u.carrier with
      | .live link => .dropped link.shutdown
      | other => other }

def stop (u : Uplink) : Uplink := { u with stopping := true }

/-- What another part of the program learns of the handshake: nothing before one has ended, and
then the phase. -/
def outcome? (u : Uplink) : Option Phase :=
  if u.settled then some u.phase else none

/-- What it learns once the uplink is gone. -/
def finalOutcome (u : Uplink) : Phase :=
  if u.settled then u.phase else .disconnected

def handle (u : Uplink) : Handle := ⟨u.poolIndex, u.phase⟩

def target : String := "stratum_agent::upstream::session"

def note (u : Uplink) (level : Log.Level) (message : String)
    (fields : List (String × String)) : Log.Record :=
  ⟨level, target, message, ("server", u.address) :: fields⟩

def idText (id : UInt32) : String := String.ofList (Text.Numeral.hex 8 id.toNat)

end Uplink

end PoolUplink
