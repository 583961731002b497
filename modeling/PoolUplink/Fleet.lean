import PoolUplink.Uplink.Attachment

/-!
# The fleet of uplinks

An agent keeps one uplink for each pool it is configured with. Each opens, reports how that went,
and serves miners until the agent shuts down.
-/

set_option autoImplicit false
set_option relaxedAutoImplicit false

namespace PoolUplink.Fleet

open PoolUplink.Uplink

def target : String := "stratum_agent::daemon"

/-- One uplink for each pool, in the order of the pools. -/
def create (settings : Settings) (account : String) : Except Fault (List Uplink) :=
  (List.range settings.pools.length).mapM (Uplink.create settings account)

def report (pool : Endpoint) : Phase → Log.Record
  | .authorized => ⟨.info, target, "Upstream ready", [("server", pool.text)]⟩
  | phase => ⟨.warn, target, "Upstream unavailable",
      [("server", pool.text), ("status", phase.name)]⟩

def launch (u : Uplink) (dial : Dial) : Turn Run :=
  let opened := u.start dial
  let served := opened.uplink.serve
  ⟨served.result, served.uplink,
    opened.trail ++ .logged (report u.pool opened.uplink.phase) :: served.trail⟩

/-- Attaches a miner to an uplink that has been launched. A running one takes it on at once. -/
def join (u : Uplink) (miner : Miner) : Turn Admission :=
  let (admission, v) := u.attach miner
  if v.phase = .authorized then
    let ran := v.run
    ⟨admission, ran.uplink, ran.trail⟩
  else ⟨admission, v, []⟩

def halt (u : Uplink) : Turn Run :=
  if u.phase = .authorized then u.stop.run else ⟨.ended, u.stop, []⟩

end PoolUplink.Fleet
