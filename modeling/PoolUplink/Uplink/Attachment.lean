import PoolUplink.Uplink.Handshake

/-!
# Attaching miners

Miners are attached through a queue of limited length. A running uplink takes them on in order;
one that could not be opened turns them away. Either way the queue is closed at the end and what
is in it is dealt with first.
-/

set_option autoImplicit false
set_option relaxedAutoImplicit false

namespace PoolUplink.Uplink

inductive Admission where
  | queued
  /-- The caller waits until there is room. The uplink does not know of it meanwhile. -/
  | full
  | closed
  deriving DecidableEq, Repr

def capacity (u : Uplink) : Nat := max u.settings.queueCapacity.toNat 1

/-- Puts a miner into the queue. A caller that finds it full is kept nowhere: one that has waited
attaches when its turn has come. Callers that wait go first, so an attempt is one that has no other
ahead of it. -/
def attach (u : Uplink) (miner : Miner) : Admission × Uplink :=
  if !u.accepting then (.closed, u)
  else if u.capacity ≤ u.queue.length then (.full, u)
  else (.queued, { u with queue := u.queue ++ [miner] })

def miner? (u : Uplink) (id : UInt32) : Option Miner :=
  u.miners.find? (·.id == id)

/-- Takes on a miner in place of any other of its id. -/
def welcome (u : Uplink) (miner : Miner) : Uplink × List Activity :=
  let others := u.miners.filter (·.id != miner.id)
  let stale := if others.length < u.miners.length
    then [say .debug target "Replaced stale downstream session" [("session_id", idText miner.id)]]
    else []
  let v := { u with miners := others ++ [miner] }
  (v, stale ++ [.introduced miner u.handle,
    .logged (v.note .debug "Downstream session attached"
      [("session_id", idText miner.id), ("sessions", Text.Numeral.text v.miners.length)])])

def welcomeAll (u : Uplink) : List Miner → Uplink × List Activity
  | [] => (u, [])
  | miner :: rest =>
    let (v, first) := u.welcome miner
    let (w, others) := welcomeAll v rest
    (w, first ++ others)

def drain (u : Uplink) : Uplink × List Activity :=
  { u with queue := [] }.welcomeAll u.queue

/-- Turns the miners in the queue away and takes no more. -/
def turnAway (u : Uplink) : Uplink × List Activity :=
  ({ u with accepting := false, queue := [] },
    u.queue.map fun miner => .logged (u.note .warn
      "Upstream unavailable, downstream session not attached"
      [("session_id", idText miner.id)]))

inductive Run where
  | ended
  | waiting
  deriving DecidableEq, Repr

/-- Takes on miners as they come. When the agent shuts down, the queue is closed, the miners in it
are still taken on, and the uplink is closed. -/
def run (u : Uplink) : Turn Run :=
  if u.stopping then
    let (v, taken) := { u with accepting := false }.drain
    ⟨.ended, v.close,
      .logged (u.note .debug "Upstream session shutting down" []) :: taken⟩
  else
    let (v, taken) := u.drain
    ⟨.waiting, v, taken⟩

/-- What follows the handshake: a run if the uplink is authorized, and no miners otherwise. -/
def serve (u : Uplink) : Turn Run :=
  if u.phase = .authorized then u.run
  else
    let (v, refused) := u.turnAway
    ⟨.ended, v, refused⟩

end PoolUplink.Uplink
