import PoolUplink.Proofs.Uplink.Knowledge
import PoolUplink.Proofs.Uplink.Sent

/-!
# Requests and what a pool has of them

A link is given to an uplink once, and then used by whatever steps there are until another one
takes its place. All the while the pool has the lines of the requests issued over it, one behind
the other, as far as it accepts bytes.
-/

set_option autoImplicit false
set_option relaxedAutoImplicit false

namespace PoolUplink

open PoolUplink.Rpc (Message)
open PoolUplink.Wire (Inbound Outbound)

def Step.newLink? : Step → Option Link
  | connect link => some link
  | handshake link => some link
  | start (.opened link) => some link
  | _ => none

/-- Whether a step hands an uplink a line that it has not read itself. -/
def Step.isLine : Step → Bool
  | line _ => true
  | _ => false

def Carrier.isLive : Carrier → Bool
  | live _ => true
  | _ => false

theorem Carrier.exists_live {carrier : Carrier} (h : carrier.isLive = true) :
    ∃ link, carrier = .live link := by
  cases carrier with
  | live link => exact ⟨link, rfl⟩
  | _ => cases h

/-- A request that an uplink is asked to write, the uplink as it is then, and what comes of it. -/
structure Call where
  uplink : Uplink
  request : Message
  result : Except Fault Unit

namespace Call

def ready (c : Call) : Bool :=
  [Phase.connected, .subscribed, .authorized].contains c.uplink.phase

/-- Whether the request is issued over the link. -/
def issued (c : Call) : Bool := c.uplink.carrier.isLive && c.ready

def bytes (cs : List Call) : List UInt8 :=
  (cs.filter issued).flatMap fun c => c.request.toLine

@[simp]
theorem bytes_nil : bytes [] = [] := rfl

theorem bytes_append (cs ds : List Call) : bytes (cs ++ ds) = bytes cs ++ bytes ds := by
  rw [bytes, List.filter_append, List.flatMap_append]
  rfl

private theorem bytes_cons (c : Call) (cs : List Call) : bytes (c :: cs) = bytes [c] ++ bytes cs :=
  bytes_append [c] cs

private theorem bytes_of_issued {c : Call} (h : c.issued = true) :
    bytes [c] = c.request.toLine := by
  simp [bytes, h]

private theorem bytes_of_not_issued {c : Call} (h : c.issued = false) : bytes [c] = [] := by
  simp [bytes, h]

theorem ready_eq_isOpen (c : Call) : c.ready = c.uplink.phase.isOpen := by
  unfold ready
  cases c.uplink.phase <;> decide

/-- What comes of a call behind bytes that have been sent over the same link. -/
structure Met (room : Option Nat) (sent : List UInt8) (c : Call) : Prop where
  ok_iff : c.issued = true → (c.result = .ok () ↔ Outbound.Fits room (sent ++ c.request.toLine))
  failed : c.issued = true → c.result ≠ .ok () → ∃ text, c.result = .error (.stream text)
  refused : c.issued = false → c.result = .error .notConnected

private theorem Met.of_not_issued {room : Option Nat} {sent : List UInt8} {c : Call}
    (h : c.issued = false) (refused : c.result = .error .notConnected) : Met room sent c where
  ok_iff issued := by
    rw [h] at issued
    cases issued
  failed issued := by
    rw [h] at issued
    cases issued
  refused _ := refused

private theorem Met.of_issued {room : Option Nat} {sent : List UInt8} {c : Call}
    (h : c.issued = true) (ok : Outbound.Fits room (sent ++ c.request.toLine) → c.result = .ok ())
    (cut : ¬ Outbound.Fits room (sent ++ c.request.toLine) → c.result = .error Outbound.refused) :
    Met room sent c where
  ok_iff _ := by
    refine ⟨fun hresult => ?_, ok⟩
    by_contra hfits
    rw [cut hfits] at hresult
    cases hresult
  failed _ hresult := ⟨_, cut (mt ok hresult)⟩
  refused issued := by
    rw [h] at issued
    cases issued

/-- Calls one behind the other come to what they should. -/
inductive Accounted (room : Option Nat) : List UInt8 → List Call → Prop
  | nil (sent : List UInt8) : Accounted room sent []
  | cons {sent : List UInt8} {c : Call} {cs : List Call} (met : Met room sent c)
      (rest : Accounted room (sent ++ bytes [c]) cs) : Accounted room sent (c :: cs)

theorem Accounted.append {room : Option Nat} {sent : List UInt8} {cs ds : List Call}
    (h : Accounted room sent cs) (h' : Accounted room (sent ++ bytes cs) ds) :
    Accounted room sent (cs ++ ds) := by
  induction h with
  | nil sent =>
    rw [bytes_nil, List.append_nil] at h'
    exact h'
  | cons met rest ih =>
    rw [bytes_cons, ← List.append_assoc] at h'
    exact Accounted.cons met (ih h')

theorem Accounted.met {room : Option Nat} {sent : List UInt8} {front : List Call} {c : Call}
    {back : List Call} (h : Accounted room sent (front ++ c :: back)) :
    Met room (sent ++ bytes front) c := by
  induction front generalizing sent with
  | nil =>
    cases h with
    | cons met rest =>
      rw [bytes_nil, List.append_nil]
      exact met
  | cons d front ih =>
    cases h with
    | cons met rest =>
      rw [bytes_cons, ← List.append_assoc]
      exact ih rest

end Call

/-- A carrier has the link that the bytes were sent over. -/
def Carrier.Delivers (room : Option Nat) (sent : List UInt8) (carrier : Carrier) : Prop :=
  ∃ link, carrier.link? = some link ∧ Outbound.Delivers room sent link.outbound

namespace Uplink

def calls (u : Uplink) : List Message → List Call
  | [] => []
  | request :: rest =>
    let first := u.write request
    ⟨u, request, first.result⟩ :: match first.result with
      | .error _ => []
      | .ok () => first.uplink.calls rest

def setupCalls (u : Uplink) : List Call := u.calls (Rpc.Setup.all u.settings.userAgent u.account)

def callsIn : Uplink × Step → List Call
  | (u, .setup) => u.setupCalls
  | (u, .handshake link) => (u.attachLink link).setupCalls
  | (u, .start (.opened link)) => (u.attachLink link).setupCalls
  | (u, .write request) => u.calls [request]
  | _ => []

section Writing

variable {u : Uplink} {link : Link}

theorem write_of_closed (h : u.phase.isOpen = false) (request : Message) :
    (u.write request).result = .error .notConnected ∧ (u.write request).uplink = u := by
  unfold write
  cases u.carrier with
  | live link => simp [h]
  | absent => exact ⟨rfl, rfl⟩
  | dropped link => exact ⟨rfl, rfl⟩

private theorem write_of_not_live (h : u.carrier.isLive = false) (request : Message) :
    (u.write request).result = .error .notConnected ∧ (u.write request).uplink = u := by
  unfold write
  cases hc : u.carrier with
  | live link =>
    rw [hc] at h
    cases h
  | absent => exact ⟨rfl, rfl⟩
  | dropped link => exact ⟨rfl, rfl⟩

private theorem write_of_open (live : u.carrier = .live link) (opened : u.phase.isOpen = true)
    (request : Message) :
    (u.write request).result = (link.outbound.writeLine request.toLine).1 ∧
      (u.write request).uplink = { u with carrier := .live { link with
        outbound := (link.outbound.writeLine request.toLine).2 } } := by
  unfold write
  rw [live]
  simp only [opened, if_true]
  exact ⟨rfl, rfl⟩

private theorem write_of_not_issued (request : Message)
    (h : Call.issued ⟨u, request, (u.write request).result⟩ = false) :
    (u.write request).result = .error .notConnected ∧ (u.write request).uplink = u := by
  rw [Call.issued, Call.ready_eq_isOpen, Bool.and_eq_false_iff] at h
  rcases h with h | h
  · exact write_of_not_live h request
  · exact write_of_closed h request

private theorem write_met {room : Option Nat} {sent : List UInt8}
    (h : u.carrier.Delivers room sent) (request : Message) :
    let c : Call := ⟨u, request, (u.write request).result⟩
    c.Met room sent ∧ (u.write request).uplink.carrier.Delivers room (sent ++ Call.bytes [c]) := by
  intro c
  cases issued : c.issued with
  | false =>
    obtain ⟨hresult, huplink⟩ := write_of_not_issued request issued
    rw [Call.bytes_of_not_issued issued, List.append_nil, huplink]
    exact ⟨.of_not_issued issued hresult, h⟩
  | true =>
    have hissued := issued
    rw [Call.issued, Call.ready_eq_isOpen, Bool.and_eq_true] at hissued
    obtain ⟨hlive, opened⟩ := hissued
    obtain ⟨link, live⟩ := Carrier.exists_live hlive
    obtain ⟨other, hother, hsent⟩ := h
    obtain rfl : link = other := by
      rw [live] at hother
      exact Option.some.inj hother
    obtain ⟨hresult, huplink⟩ := write_of_open live opened request
    obtain ⟨hdelivers, hok, herror⟩ := Outbound.writeLine_delivers hsent request.toLine_ne_nil
    rw [Call.bytes_of_issued issued, huplink]
    refine ⟨.of_issued issued ?_ ?_, _, rfl, hdelivers⟩
    · exact fun fits => hresult.trans (hok fits)
    · exact fun cut => hresult.trans (herror cut)

theorem calls_met {room : Option Nat} {sent : List UInt8}
    (h : u.carrier.Delivers room sent) (requests : List Message) :
    Call.Accounted room sent (u.calls requests) ∧
      (u.writeAll requests).uplink.carrier.Delivers room
        (sent ++ Call.bytes (u.calls requests)) := by
  induction requests generalizing u sent with
  | nil =>
    rw [calls, Call.bytes_nil, List.append_nil]
    exact ⟨.nil sent, h⟩
  | cons request rest ih =>
    obtain ⟨met, hdelivers⟩ := write_met h request
    rw [calls, writeAll]
    dsimp only
    cases hr : (u.write request).result with
    | error fault =>
      rw [hr] at met hdelivers
      exact ⟨.cons met (.nil _), hdelivers⟩
    | ok done =>
      rw [hr] at met hdelivers
      obtain ⟨haccounted, hrest⟩ := ih hdelivers
      dsimp only
      rw [Call.bytes_cons, ← List.append_assoc]
      exact ⟨.cons met haccounted, hrest⟩

end Writing

/-- What a step that gives no link makes of the carrier, and the calls it makes. -/
inductive Onward (u : Uplink) : List Call → Carrier → Prop
  | kept : Onward u [] u.carrier
  | read {link : Link} (live : u.carrier = .live link) (inbound : Inbound) :
      Onward u [] (.live { link with inbound })
  | closed {link : Link} (live : u.carrier = .live link) : Onward u [] (.dropped link.shutdown)
  | written (requests : List Message) :
      Onward u (u.calls requests) (u.writeAll requests).uplink.carrier

theorem consume_onward (u : Uplink) : Onward u [] u.consume.uplink.carrier := by
  unfold consume
  split
  · rename_i link live
    obtain ⟨inbound, hc⟩ := (consumeFrom_readsAs [] u link).carrier
    rw [hc]
    exact .read live inbound
  · exact .kept

theorem close_onward (u : Uplink) : Onward u [] u.close.carrier := by
  unfold close
  cases hc : u.carrier with
  | live link => exact .closed hc
  | absent =>
    have stays := Onward.kept (u := u)
    rw [hc] at stays
    exact stays
  | dropped link =>
    have stays := Onward.kept (u := u)
    rw [hc] at stays
    exact stays

theorem writeAll_singleton (u : Uplink) (request : Message) :
    (u.writeAll [request]).uplink = (u.write request).uplink := by
  rw [writeAll]
  dsimp only
  cases (u.write request).result <;> rfl

private theorem run_onward (u : Uplink) : Onward u [] u.run.uplink.carrier := by
  unfold run
  split
  · dsimp only
    rw [(drain_eq { u with accepting := false }).1]
    exact close_onward u
  · dsimp only
    rw [(drain_eq u).1]
    exact .kept

theorem step_onward (u : Uplink) {s : Step} (stays : s.newLink? = none) :
    Onward u (callsIn (u, s)) (u.step s).1.carrier := by
  cases s with
  | connect link => cases stays
  | handshake link => cases stays
  | start dial =>
    cases dial with
    | opened link => cases stays
    | failed reason => exact .kept
    | expired => exact .kept
  | attach miner =>
    change Onward u [] (u.attach miner).2.carrier
    rw [attach_uplink]
    split <;> exact .kept
  | setup => exact .written _
  | consume => exact consume_onward u
  | line bytes =>
    rw [line_eq]
    split
    · rw [heed_eq]
      exact .kept
    · exact .kept
  | write request =>
    have written := Onward.written (u := u) [request]
    rw [writeAll_singleton] at written
    exact written
  | close => exact close_onward u
  | stop => exact .kept
  | run => exact run_onward u
  | turnAway => exact .kept

theorem Onward.delivers {u : Uplink} {cs : List Call} {carrier : Carrier}
    (onward : Onward u cs carrier) {room : Option Nat} {sent : List UInt8}
    (h : u.carrier.Delivers room sent) :
    Call.Accounted room sent cs ∧ carrier.Delivers room (sent ++ Call.bytes cs) := by
  cases onward with
  | kept =>
    rw [Call.bytes_nil, List.append_nil]
    exact ⟨.nil sent, h⟩
  | read live inbound =>
    rw [live] at h
    obtain ⟨link, hlink, hsent⟩ := h
    cases hlink
    rw [Call.bytes_nil, List.append_nil]
    exact ⟨.nil sent, _, rfl, hsent⟩
  | closed live =>
    rw [live] at h
    obtain ⟨link, hlink, hsent⟩ := h
    cases hlink
    rw [Call.bytes_nil, List.append_nil]
    exact ⟨.nil sent, _, rfl, Outbound.shutdown_delivers hsent⟩
  | written requests => exact calls_met h requests

theorem Onward.of_not_live {u : Uplink} {cs : List Call} {carrier : Carrier}
    (onward : Onward u cs carrier) (h : u.carrier.isLive = false) : carrier = u.carrier := by
  cases onward with
  | kept => rfl
  | read live inbound =>
    rw [live] at h
    cases h
  | closed live =>
    rw [live] at h
    cases h
  | written requests =>
    cases requests with
    | nil => rfl
    | cons request rest =>
      obtain ⟨hresult, huplink⟩ := write_of_not_live h request
      rw [writeAll]
      simp only [hresult]
      rw [huplink]

end Uplink

end PoolUplink
