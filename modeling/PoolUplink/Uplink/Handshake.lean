import PoolUplink.Uplink.Response
import PoolUplink.Wire.Item

/-!
# The handshake

All setup requests are written first. Then the pool's items are read until the responses have
been accepted or something fails; a failure closes the uplink. Every item takes at least one byte
off the stream, so a finite stream is handled in finitely many turns.
-/

set_option autoImplicit false
set_option relaxedAutoImplicit false

namespace PoolUplink.Uplink

open PoolUplink.Wire

/-- A step of an uplink: how it went, the uplink after it, and what it did. -/
structure Turn (α : Type) where
  result : α
  uplink : Uplink
  trail : List Activity

def Turn.records {α : Type} (t : Turn α) : List Log.Record :=
  t.trail.filterMap Activity.record?

def say (level : Log.Level) (source message : String) (fields : List (String × String)) :
    Activity :=
  .logged ⟨level, source, message, fields⟩

def write (u : Uplink) (request : Rpc.Message) : Turn (Except Fault Unit) :=
  match u.carrier with
  | .live link =>
    if u.phase.isOpen then
      let (result, link) := link.send request.toLine
      ⟨result, { u with carrier := .live link },
        [.logged (Link.sending request.toLine)]⟩
    else ⟨.error .notConnected, u, []⟩
  | _ => ⟨.error .notConnected, u, []⟩

/-- Writes requests in order, up to the first that fails. -/
def writeAll (u : Uplink) : List Rpc.Message → Turn (Except Fault Unit)
  | [] => ⟨.ok (), u, []⟩
  | request :: rest =>
    let first := u.write request
    match first.result with
    | .error _ => first
    | .ok () =>
      let others := writeAll first.uplink rest
      ⟨others.result, others.uplink, first.trail ++ others.trail⟩

def writeSetup (u : Uplink) : Turn (Except Fault Unit) :=
  u.writeAll (Rpc.Setup.all u.settings.userAgent u.account)

def onItem (u : Uplink) : Item → Except Fault Uplink × List Activity
  | .frame header =>
    (.ok u, [say .trace target "Skipping ex-message during handshake"
      [("kind", Text.Numeral.text header.kind.toNat),
        ("length", Text.Numeral.text header.length.toNat)]])
  | .line bytes =>
    let (reaction, records) := u.onLine bytes
    (reaction, (Link.received bytes :: records).map .logged)

/-- The chunks begun between two states of a stream, as activities. -/
def begun (phase : Phase) (before after : Inbound) : List Activity :=
  List.replicate (after.begun - before.begun) (.began phase)

/-- Reads and reacts while the handshake waits for responses, behind what was done before, which
comes in reverse. What the stream has ready is read before a shutdown is looked at. A shutdown that
comes first, with items still to be read, is that of a stream which falls silent before them. -/
def consumeFrom (past : List Activity) (u : Uplink) (link : Link) :
    Turn (Reading Unit) :=
  if u.phase.inHandshake then
    match _h : Item.read link.inbound with
    | (.waiting, inbound) =>
      ⟨if u.stopping then .failed .shutdown else .waiting,
        { u with carrier := .live { link with inbound } },
        past.reverse ++ begun u.phase link.inbound inbound⟩
    | (.failed fault, inbound) =>
      ⟨.failed fault, { u with carrier := .live { link with inbound } },
        past.reverse ++ begun u.phase link.inbound inbound⟩
    | (.got item, inbound) =>
      let reading := { u with carrier := .live { link with inbound } }
      let (reaction, done) := reading.onItem item
      let doing := begun u.phase link.inbound inbound ++ done
      match reaction with
      | .error fault => ⟨.failed fault, reading, past.reverse ++ doing⟩
      | .ok v => consumeFrom (doing.reverse ++ past) v { link with inbound }
  else ⟨.got (), { u with carrier := .live link }, past.reverse⟩
termination_by link.inbound.remaining.length
decreasing_by
  have shorter : (Item.read link.inbound).1 = .got item → _ := Item.read_shorter
  rw [_h] at shorter
  exact shorter rfl

def consume (u : Uplink) : Turn (Reading Unit) :=
  match u.carrier with
  | .live link => u.consumeFrom [] link
  | _ => ⟨if u.phase.inHandshake then .failed .notConnected else .got (), u, []⟩

/-- Closes the uplink after a fault and logs it. That the agent is shutting down is no error. -/
def abandon (u : Uplink) (fault : Fault) : Turn Unit :=
  let record := match fault with
    | .shutdown => u.note .info "Handshake interrupted by shutdown" []
    | _ => u.note .error "Handshake failed"
      [("sub_account", u.account), ("error", fault.message)]
  ⟨(), u.close, [.logged record]⟩

def limit (u : Uplink) : Span := .ofSeconds u.settings.handshakeSeconds.toNat

/-- Exchanges the setup messages. Only the wait for responses is limited in time. -/
def exchange (u : Uplink) : Turn (Except Fault Unit) :=
  let sent := u.writeSetup
  match sent.result with
  | .error fault =>
    ⟨.error fault, sent.uplink, sent.trail ++
      [.logged (sent.uplink.note .error "Write JSON request failed"
        [("error", fault.message)])]⟩
  | .ok () =>
    let read := sent.uplink.consume
    let result : Except Fault Unit := match read.result with
      | .got () => .ok ()
      | .failed fault => .error fault
      | .waiting => .error (.handshakeTimeout u.limit)
    ⟨result, read.uplink, sent.trail ++ read.trail⟩

/-- Whether the handshake over a link lacks bytes of the pool. -/
def awaits (u : Uplink) (link : Link) : Bool :=
  let sent := (u.attachLink link).writeSetup
  match sent.result with
  | .error _ => false
  | .ok () => sent.uplink.consume.result == .waiting

def settle (u : Uplink) : Turn Unit :=
  let done := u.exchange
  match done.result with
  | .ok () => ⟨(), { done.uplink with settled := true }, done.trail⟩
  | .error fault =>
    let left := done.uplink.abandon fault
    ⟨(), { left.uplink with settled := true }, done.trail ++ left.trail⟩

def handshake (u : Uplink) (link : Link) : Turn Unit :=
  (u.attachLink link).settle

inductive Dial where
  | opened (link : Link)
  | failed (reason : String)
  | expired
  deriving DecidableEq, Repr

def dialed (u : Uplink) : Dial → Except Fault Link
  | .opened link => .ok link
  | .failed reason => .error (.dialFailed reason)
  | .expired => .error (.dialTimeout u.pool.text (.ofSeconds u.settings.dialSeconds.toNat))

def start (u : Uplink) (dial : Dial) : Turn Unit :=
  let server := [("server", u.pool.text)]
  let dialing := say .debug Link.target "Connecting to pool" server
  match u.dialed dial with
  | .error fault =>
    ⟨(), { u with phase := .disconnected, settled := true },
      [dialing, .logged (u.note .error "Connect failed" [("error", fault.message)])]⟩
  | .ok link =>
    let rest := u.handshake link
    ⟨(), rest.uplink, dialing :: say .debug Link.target "Connected to pool" server :: rest.trail⟩

end PoolUplink.Uplink
