import PoolUplink.Agent
import Std.Async.DNS
import Std.Async.Signal
import Std.Async.TCP
import Std.Async.Timer
import Std.Sync.CancellationToken

/-!
# The agent as a program

The program looks at its surroundings, connects the uplinks to their pools, prints what they log,
and shuts them down on a signal. Everything it decides is decided by the agent's definitions; here
bytes and times are only carried to them.
-/

set_option autoImplicit false
set_option relaxedAutoImplicit false

namespace PoolUplink.Program

open Std.Async

/-- The number of a fault of the system. Some faults come with it negated. -/
def faultNumber (code : UInt32) : Nat :=
  if code.toNat < UInt32.size / 2 then code.toNat else UInt32.size - code.toNat

/-- The text and the number of a fault of the system, if it has a number. -/
def details? : IO.Error → Option (String × UInt32)
  | .noFileOrDirectory _ code details => some (details, code)
  | .inappropriateType _ code details => some (details, code)
  | .permissionDenied _ code details => some (details, code)
  | .invalidArgument _ code details => some (details, code)
  | .resourceVanished code details => some (details, code)
  | .noSuchThing _ code details => some (details, code)
  | .timeExpired code details => some (details, code)
  | .otherError code details => some (details, code)
  | _ => none

/-- The reason of a fault of the system: its text with the first letter raised, and its number. -/
def reason (fault : IO.Error) : String :=
  match details? fault with
  | some (details, code) =>
    details.capitalize ++ " (os error " ++ Text.Numeral.text (faultNumber code) ++ ")"
  | none => toString fault

def variableNames : List String :=
  [Agent.filterVariable, Agent.journalVariable, Agent.accountVariable,
    Settings.Variables.documentPath, Settings.Variables.pools,
    Settings.Variables.submitResponse, Settings.Variables.dialSeconds,
    Settings.Variables.handshakeSeconds]

def readFile (path : String) : IO Settings.Variables.File := do
  try
    let bytes ← IO.FS.readBinFile path
    return .content bytes.data.toList
  catch fault =>
    return match fault with
    | .noFileOrDirectory _ _ _ => .missing
    | .inappropriateType _ _ _ => .directory
    | other => .barred (reason other)

/-- The surroundings of the process. Dialing is left to each uplink's own task. -/
def surroundings : IO Agent.Surroundings := do
  let values ← variableNames.filterMapM fun name => do
    return (← IO.getEnv name).map fun value => (name, value)
  let file ← match values.lookup Settings.Variables.documentPath with
    | some path => readFile path
    | none => pure .missing
  return {
    lookup := fun name => values.lookup name
    file := fun _ => file
    diagnostics := none
    journalFault := ""
    dial := fun _ => .expired }

def twoDigits (n : Nat) : String :=
  if n < 10 then "0" ++ Text.Numeral.text n else Text.Numeral.text n

def clock : IO String := do
  let now ← Std.Time.Timestamp.now
  let second := (now.toSecondsSinceUnixEpoch.val % 86400).toNat
  return String.intercalate ":"
    ([second / 3600, second / 60 % 60, second % 60].map twoDigits)

def print (filter : Log.Filter) (records : List Log.Record) : IO Unit := do
  let output ← IO.getStdout
  for line in records.filterMap (Log.Line.print? filter) do
    output.putStr ((← clock) ++ " " ++ line)
  output.flush

/-- A number of seconds as a timer takes it. No timer runs for more than thirty years. -/
def milliseconds (seconds : UInt64) : Std.Time.Millisecond.Offset :=
  .ofNat (min seconds.toNat 1000000000 * 1000)

def addresses (pool : Endpoint) : Async (Except String (List Std.Net.SocketAddress)) := do
  try
    let found ← DNS.getAddrInfo pool.host ""
    return .ok (found.toList.map fun address => match address with
      | .v4 addr => .v4 ⟨addr, pool.portNumber⟩
      | .v6 addr => .v6 ⟨addr, pool.portNumber⟩)
  catch fault =>
    let text := match details? fault with
      | some (details, _) => details.capitalize
      | none => toString fault
    return .error ("failed to lookup address information: " ++ text)

/-- Connects to the first address that answers, or tells why the last one did not. -/
def connectAny (failure : String) :
    List Std.Net.SocketAddress → Async (Except String TCP.Socket.Client)
  | [] => return .error failure
  | address :: others => do
    let outcome : Except String TCP.Socket.Client ← try
        let socket ← TCP.Socket.Client.mk
        socket.connect address
        pure (.ok socket)
      catch fault => pure (.error (reason fault))
    match outcome with
    | .ok socket => return .ok socket
    | .error later => connectAny later others

def connect (pool : Endpoint) : Async (Except String TCP.Socket.Client) := do
  match ← addresses pool with
  | .error failure => return .error failure
  | .ok found => connectAny "could not resolve to any addresses" found

/-- Collects what a pool sends until the handshake lacks nothing more, its time is over, or the
agent shuts down. -/
partial def collect (u : Uplink) (socket : TCP.Socket.Client) (link : Link)
    (time : Sleep) (shutdown : Std.CancellationToken) (chunks : List (List UInt8)) :
    Async (Uplink × Wire.Inbound) := do
  let silent := Wire.Inbound.ofChunks chunks .silent
  if !u.awaits { link with inbound := silent } then
    return (u, silent)
  let next : Except (Uplink × Wire.Inbound) (List UInt8) ← try
      Selectable.one #[
        .case (socket.recvSelector 8192) fun bytes => return match bytes with
          | some bytes => .ok bytes.data.toList
          | none => .error (u, .ofChunks chunks .closed),
        .case time.selector fun _ => return .error (u, silent),
        .case shutdown.selector fun _ => return .error (u.stop, silent)]
    catch _ => pure (.error (u, .ofChunks chunks .torn))
  match next with
  | .ok bytes => collect u socket link time shutdown (chunks ++ [bytes])
  | .error done => return done

def peerOf : Std.Net.SocketAddress → Peer
  | .v4 ⟨⟨b⟩, n⟩ => .octets ⟨b[0], b[1], b[2], b[3]⟩ n
  | .v6 ⟨⟨gs⟩, n⟩ => .groups ⟨gs.toList, by simp⟩ 0 n

def converse (u : Uplink) (socket : TCP.Socket.Client) (shutdown : Std.CancellationToken) :
    Async (Uplink × Link) := do
  let peer := (← socket.getPeerName.toBaseIO).toOption.map peerOf
  let link : Link := ⟨.ofChunks [] .silent, .fresh none, peer⟩
  let sent := (u.attachLink link).writeSetup.uplink.carrier.link?
  try
    for asked in sent do
      socket.send ⟨asked.outbound.received.toArray⟩
    let time ← Sleep.mk (milliseconds u.settings.handshakeSeconds)
    let (v, inbound) ← collect u socket link time shutdown []
    return (v, { link with inbound })
  catch _ =>
    return (u, { link with outbound := .fresh (some 0) })

def keep (filter : Log.Filter) (shutdown : Std.CancellationToken) (u : Uplink) : Async Unit := do
  let expiry : Async (Option (Except String TCP.Socket.Client)) := do
    sleep (milliseconds u.settings.dialSeconds)
    return none
  match ← Async.race (some <$> connect u.pool) expiry with
  | none => print filter (Fleet.launch u .expired).records
  | some (.error failure) => print filter (Fleet.launch u (.failed failure)).records
  | some (.ok socket) =>
    let (v, link) ← converse u socket shutdown
    let launched := Fleet.launch v (.opened link)
    print filter launched.records
    if launched.uplink.phase = .authorized then
      Selectable.one #[.case shutdown.selector fun _ => return ()]
      print filter (Fleet.halt launched.uplink).records
    try socket.shutdown catch _ => pure ()

def awaitSignal : Async Agent.Signal := do
  let interrupt ← Signal.Waiter.mk .sigint false
  let terminate ← Signal.Waiter.mk .sigterm false
  Selectable.one #[
    .case interrupt.selector fun _ => return .interrupt,
    .case terminate.selector fun _ => return .terminate]

def run (s : Agent.Surroundings) : IO UInt32 := do
  let filter := Agent.filter s
  print filter (Agent.preamble s)
  match Agent.assemble s with
  | .error obstacle =>
    (← IO.getStderr).putStr obstacle.diagnostics
    return 1
  | .ok crew =>
    let shutdown ← Std.CancellationToken.new
    let tasks ← crew.uplinks.mapM fun u => (keep filter shutdown u).toIO
    print filter [Agent.started crew]
    let signal ← awaitSignal.block
    print filter (Agent.stopping signal)
    shutdown.cancel
    for task in tasks do
      task.block
    print filter [Agent.exiting]
    return 0

end PoolUplink.Program

def main : IO UInt32 := do
  PoolUplink.Program.run (← PoolUplink.Program.surroundings)
