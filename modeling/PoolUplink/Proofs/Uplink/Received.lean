import PoolUplink.Proofs.Uplink.Calls

/-!
# What a pool receives over a link

From the step that gives an uplink a link until another takes its place, the pool receives the
lines of the requests issued, in order, up to where it stops accepting bytes. A request is written
exactly if its line and all before it are accepted.
-/

set_option autoImplicit false
set_option relaxedAutoImplicit false

namespace PoolUplink.Uplink

open PoolUplink.Rpc (Message)
open PoolUplink.Wire (Inbound Outbound)

def callsOver (u : Uplink) (steps : List Step) : List Call := (u.moments steps).flatMap callsIn

private theorem callsOver_cons (u : Uplink) (s : Step) (steps : List Step) :
    u.callsOver (s :: steps) = callsIn (u, s) ++ (u.step s).1.callsOver steps :=
  List.flatMap_cons

section Delivering

variable {u : Uplink} {room : Option Nat} {sent : List UInt8}

private theorem Onward.delivers_still {carrier : Carrier} (onward : Onward u [] carrier)
    (h : u.carrier.Delivers room sent) : carrier.Delivers room sent := by
  have hd := (onward.delivers h).2
  rwa [Call.bytes_nil, List.append_nil] at hd

private theorem settle_delivers (h : u.carrier.Delivers room sent) :
    Call.Accounted room sent u.setupCalls ∧
      u.settle.uplink.carrier.Delivers room (sent ++ Call.bytes u.setupCalls) := by
  obtain ⟨accounted, hsent⟩ := calls_met h (Rpc.Setup.all u.settings.userAgent u.account)
  have hexchange :
      u.exchange.uplink.carrier.Delivers room (sent ++ Call.bytes u.setupCalls) := by
    by_cases written : u.writeSetup.result = .ok ()
    · rw [(exchange_of_written written).2]
      exact (consume_onward _).delivers_still hsent
    · rw [(exchange_of_refused written).2]
      exact hsent
  refine ⟨accounted, ?_⟩
  rw [settle_uplink]
  split
  · exact hexchange
  · exact (close_onward _).delivers_still hexchange

private theorem handshake_delivers {link : Link} (fresh : link.outbound = .fresh room) :
    Call.Accounted room [] (callsIn (u, .handshake link)) ∧
      (u.handshake link).uplink.carrier.Delivers room
        (Call.bytes (callsIn (u, .handshake link))) := by
  have attached : (u.attachLink link).carrier.Delivers room [] :=
    ⟨link, rfl, fresh ▸ Outbound.fresh_delivers room⟩
  rw [handshake]
  exact settle_delivers attached

private theorem given_delivers {give : Step} {link : Link} (given : give.newLink? = some link)
    (fresh : link.outbound = .fresh room) :
    Call.Accounted room [] (callsIn (u, give)) ∧
      (u.step give).1.carrier.Delivers room (Call.bytes (callsIn (u, give))) := by
  cases give with
  | connect other =>
    cases given
    exact ⟨.nil [], link, rfl, fresh ▸ Outbound.fresh_delivers room⟩
  | handshake other =>
    cases given
    dsimp only [step]
    exact handshake_delivers fresh
  | start dial =>
    cases dial with
    | opened other =>
      cases given
      dsimp only [step]
      rw [start_opened]
      exact handshake_delivers fresh
    | _ => cases given
  | _ => cases given

private theorem after_delivers (h : u.carrier.Delivers room sent) {steps : List Step}
    (stay : ∀ s ∈ steps, s.newLink? = none) :
    Call.Accounted room sent (u.callsOver steps) ∧
      (u.after steps).carrier.Delivers room (sent ++ Call.bytes (u.callsOver steps)) := by
  induction steps generalizing u sent with
  | nil =>
    have hnone : u.callsOver [] = [] := rfl
    rw [hnone, Call.bytes_nil, List.append_nil]
    exact ⟨.nil sent, h⟩
  | cons s steps ih =>
    have hs : s.newLink? = none := stay s List.mem_cons_self
    obtain ⟨accounted, hstep⟩ := (step_onward u hs).delivers h
    obtain ⟨haccounted, hsteps⟩ := ih hstep fun t ht => stay t (List.mem_cons_of_mem _ ht)
    rw [callsOver_cons, Call.bytes_append, ← List.append_assoc]
    exact ⟨accounted.append haccounted, hsteps⟩

private theorem after_of_not_live (h : u.carrier.isLive = false) {steps : List Step}
    (stay : ∀ s ∈ steps, s.newLink? = none) : (u.after steps).carrier = u.carrier := by
  induction steps generalizing u with
  | nil => rfl
  | cons s steps ih =>
    have hs : s.newLink? = none := stay s List.mem_cons_self
    have hstep := (step_onward u hs).of_not_live h
    have hsteps := ih (hstep ▸ h) fun t ht => stay t (List.mem_cons_of_mem _ ht)
    exact hsteps.trans hstep

private theorem close_not_live (u : Uplink) : u.close.carrier.isLive = false := by
  unfold close
  cases u.carrier <;> rfl

end Delivering

def Linked (u : Uplink) : Prop := u.phase.isOpen = true → u.carrier.isLive = true

section Linked

variable {u : Uplink}

private theorem linked_of_closed (h : u.phase.isOpen = false) : u.Linked := by
  intro opened
  rw [h] at opened
  cases opened

private theorem linked_attachLink (u : Uplink) (link : Link) :
    (u.attachLink link).Linked := fun _ => rfl

private theorem linked_close (u : Uplink) : u.close.Linked := linked_of_closed rfl

private theorem Linked.writeAll (h : u.Linked) (requests : List Message) :
    (u.writeAll requests).uplink.Linked := by
  obtain ⟨⟨carrier, hu⟩, -⟩ := writeAll_carrier u requests
  intro opened
  rw [hu] at opened
  obtain ⟨link, live⟩ := Carrier.exists_live (h opened)
  rw [(writeAll_live live opened requests).2]
  rfl

private theorem Linked.write (h : u.Linked) (request : Message) :
    (u.write request).uplink.Linked := by
  rw [← writeAll_singleton]
  exact h.writeAll [request]

private theorem Linked.consume (h : u.Linked) : u.consume.uplink.Linked := by
  unfold Uplink.consume
  split
  · rename_i link live
    obtain ⟨inbound, hc⟩ := (consumeFrom_readsAs [] u link).carrier
    intro _
    rw [hc]
    rfl
  · exact h

private theorem Linked.settle (h : u.Linked) : u.settle.uplink.Linked := by
  have hexchange : u.exchange.uplink.Linked := by
    by_cases written : u.writeSetup.result = .ok ()
    · rw [(exchange_of_written written).2]
      exact (h.writeAll _).consume
    · rw [(exchange_of_refused written).2]
      exact h.writeAll _
  rw [settle_uplink]
  split
  · exact hexchange
  · exact linked_close u.exchange.uplink

private theorem linked_handshake (u : Uplink) (link : Link) : (u.handshake link).uplink.Linked := by
  rw [handshake]
  exact (linked_attachLink u link).settle

private theorem Linked.run (h : u.Linked) : u.run.uplink.Linked := by
  unfold Uplink.run
  split
  · exact linked_close _
  · dsimp only
    rw [(drain_eq u).1]
    exact h

theorem Linked.step (h : u.Linked) {s : Step} (read : s.isLine = false) :
    (u.step s).1.Linked := by
  cases s with
  | line bytes => cases read
  | attach miner =>
    change (u.attach miner).2.Linked
    rw [attach_uplink]
    split <;> exact h
  | connect link => exact linked_attachLink u link
  | setup => exact h.writeAll _
  | consume => exact h.consume
  | start dial =>
    cases dial with
    | opened link =>
      dsimp only [Uplink.step]
      rw [start_opened]
      exact linked_handshake u link
    | failed reason => exact linked_of_closed rfl
    | expired => exact linked_of_closed rfl
  | handshake link =>
    dsimp only [Uplink.step]
    exact linked_handshake u link
  | write request => exact h.write request
  | close => exact linked_close u
  | stop => exact h
  | run => exact h.run
  | turnAway => exact h

private theorem Linked.issued_eq_ready (h : u.Linked) {requests : List Message} :
    ∀ c ∈ u.calls requests, c.issued = c.ready := by
  induction requests generalizing u with
  | nil =>
    intro c hc
    cases hc
  | cons request rest ih =>
    intro c hc
    rcases List.mem_cons.mp hc with rfl | hc
    · rw [Call.issued, Call.ready_eq_isOpen, Bool.and_eq_right_iff_imp]
      exact h
    · cases hr : (u.write request).result with
      | error fault =>
        rw [hr] at hc
        cases hc
      | ok done =>
        rw [hr] at hc
        exact ih (h.write request) c hc

theorem issued_eq_ready_of_mem_callsIn {s : Step} (h : s.newLink? = none → u.Linked) :
    ∀ c ∈ callsIn (u, s), c.issued = c.ready := by
  cases s with
  | setup => exact (h rfl).issued_eq_ready
  | handshake link => exact (linked_attachLink u link).issued_eq_ready
  | start dial =>
    cases dial with
    | opened link => exact (linked_attachLink u link).issued_eq_ready
    | _ =>
      intro c hc
      cases hc
  | write request => exact (h rfl).issued_eq_ready
  | _ =>
    intro c hc
    cases hc

private theorem Linked.issued_eq_ready_of_mem_callsOver (h : u.Linked) {steps : List Step}
    (read : ∀ s ∈ steps, s.isLine = false) :
    ∀ c ∈ u.callsOver steps, c.issued = c.ready := by
  induction steps generalizing u with
  | nil =>
    intro c hc
    cases hc
  | cons s steps ih =>
    intro c hc
    rw [callsOver_cons] at hc
    rcases List.mem_append.mp hc with hc | hc
    · exact issued_eq_ready_of_mem_callsIn (fun _ => h) c hc
    · exact ih (h.step (read s List.mem_cons_self))
        (fun t ht => read t (List.mem_cons_of_mem _ ht)) c hc

private theorem linked_of_given {give : Step} {link : Link} (given : give.newLink? = some link) :
    (u.step give).1.Linked := by
  cases give with
  | connect other => exact linked_attachLink u other
  | handshake other =>
    dsimp only [Uplink.step]
    exact linked_handshake u other
  | start dial =>
    cases dial with
    | opened other =>
      dsimp only [Uplink.step]
      rw [start_opened]
      exact linked_handshake u other
    | _ => cases given
  | _ => cases given

end Linked

private theorem calls_request {u : Uplink} {requests : List Message}
    (written : (u.writeAll requests).result = .ok ()) :
    (u.calls requests).map Call.request = requests := by
  induction requests generalizing u with
  | nil => rfl
  | cons request rest ih =>
    rw [writeAll] at written
    rw [calls]
    dsimp only at written ⊢
    cases hr : (u.write request).result with
    | error fault =>
      simp only [hr] at written
      cases written
    | ok done =>
      simp only [hr] at written
      exact congrArg (request :: ·) (ih written)

/-- What a pool receives over a link. Its bytes are a front of the lines of the requests issued,
and a request is written exactly if its line still is part of that. Without an open phase nothing
is written, and over a link that has been closed nothing more. A handshake whose requests are not
all accepted reads nothing; otherwise it writes them whatever the pool sends. -/
theorem received_front (u : Uplink) (inbound : Inbound) (room : Option Nat)
    (peer : Option Peer) :
    (∀ (give : Step) (steps : List Step),
      give.newLink? = some ⟨inbound, .fresh room, peer⟩ →
      (∀ s ∈ steps, s.newLink? = none) →
      (∃ left, (u.after (give :: steps)).carrier.link? = some left ∧
        left.outbound.received =
          Outbound.accepted room (Call.bytes (u.callsOver (give :: steps)))) ∧
      (∀ front c back, u.callsOver (give :: steps) = front ++ c :: back →
        (c.issued = true →
          (c.result = .ok () ↔
            Outbound.Fits room (Call.bytes front ++ c.request.toLine)) ∧
          (c.result ≠ .ok () → ∃ text, c.result = .error (.stream text))) ∧
        (c.issued = false → c.result = .error .notConnected)) ∧
      ((∀ s ∈ steps, s.isLine = false) →
        ∀ c ∈ u.callsOver (give :: steps), c.issued = c.ready)) ∧
    (u.phase = .disconnected ∨ u.phase = .connecting → ∀ request,
      (u.write request).result = .error .notConnected ∧ (u.write request).uplink = u) ∧
    (∀ steps : List Step, (∀ s ∈ steps, s.newLink? = none) →
      (u.close.after steps).carrier = u.close.carrier) ∧
    (¬ Outbound.Fits room u.setupLines.flatten →
      ∃ outbound, (u.handshake ⟨inbound, .fresh room, peer⟩).uplink =
        { u.attachLink ⟨inbound, .fresh room, peer⟩ with
          phase := .disconnected
          settled := true
          carrier := .dropped ⟨inbound, outbound, peer⟩ }) ∧
    (Outbound.Fits room u.setupLines.flatten →
      (callsIn (u, .handshake ⟨inbound, .fresh room, peer⟩)).map Call.request =
          Rpc.Setup.all u.settings.userAgent u.account ∧
        ∃ left, (u.handshake ⟨inbound, .fresh room, peer⟩).uplink.carrier.link? = some left ∧
          left.outbound.received = u.setupLines.flatten) := by
  refine ⟨?_, ?_, ?_, ?_, ?_⟩
  · intro give steps given stay
    obtain ⟨accounted, hgive⟩ := given_delivers (u := u) given rfl
    obtain ⟨haccounted, hsteps⟩ := after_delivers hgive stay
    have hall : Call.Accounted room [] (u.callsOver (give :: steps)) := by
      rw [callsOver_cons]
      exact accounted.append haccounted
    refine ⟨?_, ?_, ?_⟩
    · obtain ⟨left, hleft, hsent⟩ := hsteps
      refine ⟨left, hleft, ?_⟩
      rw [callsOver_cons, Call.bytes_append]
      exact hsent.received
    · intro front c back hsplit
      rw [hsplit] at hall
      have met := hall.met
      exact ⟨fun issued => ⟨met.ok_iff issued, met.failed issued⟩, met.refused⟩
    · intro read c hc
      rw [callsOver_cons] at hc
      rcases List.mem_append.mp hc with hc | hc
      · refine issued_eq_ready_of_mem_callsIn (fun stays => ?_) c hc
        rw [given] at stays
        cases stays
      · exact (linked_of_given given).issued_eq_ready_of_mem_callsOver read c hc
  · intro hphase request
    have closed : u.phase.isOpen = false := by
      rcases hphase with h | h <;> rw [h] <;> rfl
    exact write_of_closed closed request
  · exact fun steps stay => after_of_not_live (close_not_live u) stay
  · intro cut
    have refused := mt (writeSetup_ok_iff u inbound room peer).mp cut
    rw [handshake_of_refused refused]
    exact ⟨_, rfl⟩
  · intro fits
    have written := (writeSetup_ok_iff u inbound room peer).mpr fits
    obtain ⟨left, hleft, hreceived⟩ := handshake_received u inbound room peer
    exact ⟨calls_request written, left, hleft,
      hreceived.trans (Outbound.accepted_of_fits fits)⟩

/-- A link whose pool stops accepting bytes inside the first line after the handshake. -/
def shortLink : Link := ⟨(sampleLink samplePackets).inbound, .fresh (some 380), none⟩

def sampleWrites : List Step :=
  [.write (Rpc.Setup.authorize "account"), .write Rpc.Setup.configure, .close,
    .write Rpc.Setup.features]

theorem received_front_of_sampleWrites :
    ∃ u, create sampleSettings "account" 0 = .ok u ∧
      (Step.handshake shortLink).newLink? = some shortLink ∧
      (∀ s ∈ sampleWrites, s.newLink? = none) ∧
      (∃ left, (u.after (.handshake shortLink :: sampleWrites)).carrier.link? = some left ∧
        left.outbound.received =
          (u.setupLines.flatten ++ (Rpc.Setup.authorize "account").toLine).take 380) ∧
      (u.callsOver (.handshake shortLink :: sampleWrites)).map Call.issued =
        [true, true, true, true, true, true, false] ∧
      ∃ cut, (u.callsOver (.handshake shortLink :: sampleWrites))[4]? = some cut ∧
        cut.request = Rpc.Setup.authorize "account" ∧
        ∃ text, cut.result = .error (.stream text) := by
  obtain ⟨u, created⟩ : ∃ u, create sampleSettings "account" 0 = .ok u := ⟨_, rfl⟩
  have stay : ∀ s ∈ sampleWrites, s.newLink? = none := by decide
  obtain ⟨⟨left, hleft, hreceived⟩, hcalls, -⟩ :=
    (received_front u shortLink.inbound (some 380) none).1 (.handshake shortLink) sampleWrites
      rfl stay
  have hissued : (u.callsOver (.handshake shortLink :: sampleWrites)).map Call.issued =
      [true, true, true, true, true, true, false] := by
    cases created
    decide +kernel
  have hrequest : ((u.callsOver (.handshake shortLink :: sampleWrites)).map Call.request)[4]? =
      some (Rpc.Setup.authorize "account") := by
    cases created
    decide +kernel
  have haccepted : Outbound.accepted (some 380)
        (Call.bytes (u.callsOver (.handshake shortLink :: sampleWrites))) =
      (u.setupLines.flatten ++ (Rpc.Setup.authorize "account").toLine).take 380 := by
    cases created
    decide +kernel
  have hlong : 380 < (Call.bytes ((u.callsOver (.handshake shortLink :: sampleWrites)).take 4) ++
      (Rpc.Setup.authorize "account").toLine).length := by
    cases created
    decide +kernel
  refine ⟨u, created, rfl, stay, ⟨left, hleft, hreceived.trans haccepted⟩, hissued, ?_⟩
  generalize u.callsOver (.handshake shortLink :: sampleWrites) = calls at *
  rw [List.getElem?_map] at hrequest
  obtain ⟨cut, hcut, hauthorize⟩ := Option.map_eq_some_iff.mp hrequest
  obtain ⟨hlt, hget⟩ := List.getElem?_eq_some_iff.mp hcut
  have hsplit : calls = calls.take 4 ++ cut :: calls.drop 5 := by
    rw [← hget, ← List.drop_eq_getElem_cons hlt, List.take_append_drop]
  have issued : cut.issued = true := by
    have h : (calls.map Call.issued)[4]? = some true := by rw [hissued]; rfl
    rw [List.getElem?_map, hcut] at h
    exact Option.some.inj h
  obtain ⟨hok, herror⟩ := (hcalls _ cut _ hsplit).1 issued
  refine ⟨cut, hcut, hauthorize, herror fun h => ?_⟩
  have fits := hok.mp h 380 rfl
  rw [hauthorize] at fits
  exact absurd fits (Nat.not_le.mpr hlong)

end PoolUplink.Uplink
