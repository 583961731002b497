import PoolUplink.Proofs.Uplink.Completion

/-!
# A handshake as a whole

The setup requests are written whatever the pool sends. Then the units of the stream decide:
the uplink keeps its link, or it is closed. Bytes of the pool that no reading has reached are no
part of the outcome.
-/

set_option autoImplicit false
set_option relaxedAutoImplicit false

namespace PoolUplink

open PoolUplink.Wire (Item Reading Inbound Outbound)

namespace Wire.Outbound

-- irreducible: comparing two links must not run the writes
@[irreducible]
def writeLines (s : Outbound) : List (List UInt8) → Except Fault Unit × Outbound
  | [] => (.ok (), s)
  | line :: rest =>
    match s.writeLine line with
    | (.error fault, t) => (.error fault, t)
    | (.ok (), t) => t.writeLines rest

private theorem flush_of_unlimited {s : Outbound} (h : s.room = none) :
    ∃ t, s.flush = (.ok (), t) ∧ t.room = none := by
  refine ⟨{ s with received := s.received ++ s.held, held := [] }, ?_, h⟩
  simp only [flush, offer, h]
  rfl

private theorem take_of_unlimited {s : Outbound} (h : s.room = none) (line : List UInt8) :
    ∃ t, s.take line = (.ok (), t) ∧ t.room = none := by
  unfold take
  split
  · exact ⟨_, rfl, h⟩
  · simp only [offer, h]
    exact ⟨_, rfl, rfl⟩

private theorem writeLine_of_unlimited {s : Outbound} (h : s.room = none) (line : List UInt8) :
    ∃ t, s.writeLine line = (.ok (), t) ∧ t.room = none := by
  have makeRoom : ∃ t,
      (if s.held.length + line.length > capacity then s.flush else (.ok (), s)) = (.ok (), t) ∧
        t.room = none := by
    split
    · exact flush_of_unlimited h
    · exact ⟨s, rfl, h⟩
  obtain ⟨t, ht, hroom⟩ := makeRoom
  obtain ⟨v, hv, hroom⟩ := take_of_unlimited hroom line
  unfold writeLine
  simp only [ht, hv]
  exact flush_of_unlimited hroom

theorem writeLines_of_unlimited {s : Outbound} (h : s.room = none) (lines : List (List UInt8)) :
    (s.writeLines lines).1 = .ok () := by
  induction lines generalizing s with
  | nil => rw [writeLines]
  | cons line rest ih =>
    obtain ⟨t, ht, hroom⟩ := writeLine_of_unlimited h line
    rw [writeLines, ht]
    exact ih hroom

end Wire.Outbound

namespace Link

def behind (link : Link) (lines : List (List UInt8)) : Link :=
  { link with outbound := (link.outbound.writeLines lines).2 }

def withoutUnread (link : Link) : Link :=
  { link with inbound := .ofChunks [] .silent }

end Link

def Carrier.withoutUnread : Carrier → Carrier
  | absent => absent
  | live link => live link.withoutUnread
  | dropped link => dropped link.withoutUnread

namespace Uplink

def withoutUnread (u : Uplink) : Uplink :=
  { u with carrier := u.carrier.withoutUnread }

@[simp]
theorem withoutUnread_phase (u : Uplink) : u.withoutUnread.phase = u.phase := rfl

@[simp]
theorem withoutUnread_answered (u : Uplink) : u.withoutUnread.answered = u.answered := rfl

@[simp]
theorem withoutUnread_carrier (u : Uplink) :
    u.withoutUnread.carrier = u.carrier.withoutUnread := rfl

def setupLines (u : Uplink) : List (List UInt8) :=
  (Rpc.Setup.all u.settings.userAgent u.account).map Rpc.Message.toLine

theorem writeAll_live {u : Uplink} {link : Link} (h : u.carrier = .live link)
    (ho : u.phase.isOpen = true) (requests : List Rpc.Message) :
    (u.writeAll requests).result =
        (link.outbound.writeLines (requests.map Rpc.Message.toLine)).1 ∧
      (u.writeAll requests).uplink =
        { u with carrier := .live (link.behind (requests.map Rpc.Message.toLine)) } := by
  induction requests generalizing u link with
  | nil =>
    rw [List.map_nil, Link.behind, Outbound.writeLines]
    refine ⟨rfl, ?_⟩
    change u = { u with carrier := .live link }
    rw [← h]
  | cons request rest ih =>
    have hw : u.write request = ⟨(link.send request.toLine).1,
        { u with carrier := .live (link.send request.toLine).2 },
        [.logged (Link.sending request.toLine)]⟩ := by
      unfold write
      rw [h]
      exact if_pos ho
    rw [writeAll, hw]
    simp only [Link.send, Link.behind, List.map_cons, Outbound.writeLines]
    cases hl : link.outbound.writeLine request.toLine with
    | mk result outbound =>
      cases result with
      | error fault => exact ⟨rfl, rfl⟩
      | ok done =>
        have hlive : ({ u with carrier := .live { link with outbound } } : Uplink).carrier =
            .live { link with outbound } := rfl
        exact ih hlive ho

theorem writeSetup_attachLink (u : Uplink) (link : Link) :
    (u.attachLink link).writeSetup.result = (link.outbound.writeLines u.setupLines).1 ∧
      (u.attachLink link).writeSetup.uplink = u.attachLink (link.behind u.setupLines) :=
  writeAll_live rfl rfl _

theorem writeSetup_inbound (u : Uplink) (link : Link) (inbound : Inbound) :
    (u.attachLink { link with inbound }).writeSetup.result =
      (u.attachLink link).writeSetup.result := by
  rw [(writeSetup_attachLink u _).1, (writeSetup_attachLink u _).1]

theorem settle_uplink (u : Uplink) :
    u.settle.uplink =
      if u.exchange.result = .ok () then { u.exchange.uplink with settled := true }
      else { u.exchange.uplink.close with settled := true } := by
  unfold settle
  generalize u.exchange = done
  rcases done with ⟨result, v, trail⟩
  cases result with
  | error fault => exact (if_neg (fun h => by cases h)).symm
  | ok done => exact (if_pos rfl).symm

theorem exchange_of_refused {u : Uplink} (refused : u.writeSetup.result ≠ .ok ()) :
    u.exchange.result ≠ .ok () ∧ u.exchange.uplink = u.writeSetup.uplink := by
  unfold exchange
  generalize u.writeSetup = sent at *
  rcases sent with ⟨result, v, trail⟩
  cases result with
  | error fault =>
    refine ⟨?_, rfl⟩
    intro h
    cases h
  | ok done => exact absurd rfl refused

theorem exchange_of_written {u : Uplink} (written : u.writeSetup.result = .ok ()) :
    (u.exchange.result = .ok () ↔ u.writeSetup.uplink.consume.result = .got ()) ∧
      u.exchange.uplink = u.writeSetup.uplink.consume.uplink := by
  unfold exchange
  generalize u.writeSetup = sent at *
  rcases sent with ⟨result, v, trail⟩
  obtain rfl : result = .ok () := written
  dsimp only
  generalize v.consume = read
  rcases read with ⟨reading, w, trail'⟩
  cases reading <;> simp

theorem handshake_of_refused {u : Uplink} {link : Link}
    (refused : (u.attachLink link).writeSetup.result ≠ .ok ()) :
    (u.handshake link).uplink =
      { (u.attachLink (link.behind u.setupLines)).close with settled := true } := by
  obtain ⟨hr, hu⟩ := exchange_of_refused refused
  rw [handshake, settle_uplink, if_neg hr, hu, (writeSetup_attachLink u link).2]

theorem handshake_congr_of_refused {u : Uplink} {link : Link}
    (refused : (u.attachLink link).writeSetup.result ≠ .ok ()) (inbound : Inbound) :
    (u.handshake { link with inbound }).uplink.withoutUnread =
      (u.handshake link).uplink.withoutUnread := by
  have refused' : (u.attachLink { link with inbound }).writeSetup.result ≠ .ok () := by
    rw [writeSetup_inbound]
    exact refused
  rw [handshake_of_refused refused, handshake_of_refused refused']
  rfl

theorem eq_of_unlinked {u v : Uplink} {carrier : Carrier} (h : u.unlinked = v)
    (hc : u.carrier = carrier) : u = { v with carrier } := by
  subst h hc
  rfl

theorem consume_readsAs (u : Uplink) (link : Link) :
    ReadsAs [] (link.behind u.setupLines) (u.attachLink link).writeSetup.uplink.consume
      ((u.attachLink link).unlinked.follow (Item.units link.inbound)) := by
  rw [(writeSetup_attachLink u link).2]
  exact consumeFrom_readsAs [] (u.attachLink (link.behind u.setupLines)) _

theorem handshake_of_written {u : Uplink} {link : Link}
    (written : (u.attachLink link).writeSetup.result = .ok ()) :
    (u.handshake link).uplink.withoutUnread =
      let sent := (link.behind u.setupLines).withoutUnread
      let read := (u.attachLink link).unlinked.follow (Item.units link.inbound)
      if read.result = .got () then { read.uplink with settled := true, carrier := .live sent }
      else { read.uplink with
        settled := true
        phase := .disconnected
        carrier := .dropped sent.shutdown } := by
  obtain ⟨hr, hu⟩ := exchange_of_written written
  have reads := consume_readsAs u link
  have hgot : (u.attachLink link).exchange.result = .ok () ↔
      ((u.attachLink link).unlinked.follow (Item.units link.inbound)).result = .got () := by
    rw [hr, reads.result]
  obtain ⟨inbound, hc⟩ := reads.carrier
  rw [handshake, settle_uplink, hu, eq_of_unlinked reads.uplink hc]
  generalize (u.attachLink link).unlinked.follow (Item.units link.inbound) = read at hgot ⊢
  by_cases h : read.result = .got ()
  · rw [if_pos (hgot.mpr h)]
    exact (if_pos h).symm
  · rw [if_neg (mt hgot.mp h)]
    exact (if_neg h).symm

theorem pending_attachLink (u : Uplink) (link : Link) : (u.attachLink link).unlinked.Pending :=
  Or.inl rfl

theorem handshake_phase (u : Uplink) (link : Link) :
    (u.handshake link).uplink.phase = .authorized ↔
      (u.attachLink link).writeSetup.result = .ok () ∧
        ∃ k, (u.attachLink link).unlinked.Completes ((Item.units link.inbound).take k) := by
  have hp := pending_attachLink u link
  by_cases written : (u.attachLink link).writeSetup.result = .ok ()
  · rw [← withoutUnread_phase, handshake_of_written written, and_iff_right written]
    dsimp only
    constructor
    · split
      · rename_i hr
        intro _
        obtain ⟨k, hk, -⟩ := completes_of_follow hp hr
        exact ⟨k, hk⟩
      · intro h
        cases h
    · rintro ⟨k, hk⟩
      obtain ⟨hr, ha⟩ := follow_of_completes hp hk
      rw [if_pos hr]
      exact ha
  · rw [handshake_of_refused written]
    constructor
    · intro h
      cases h
    · rintro ⟨h, -⟩
      exact absurd h written

theorem handshake_closed {u : Uplink} {link : Link}
    (h : (u.handshake link).uplink.phase ≠ .authorized) :
    (u.handshake link).uplink.phase = .disconnected ∧
      ∃ left, (u.handshake link).uplink.carrier = .dropped left := by
  by_cases written : (u.attachLink link).writeSetup.result = .ok ()
  · have hw := handshake_of_written written
    dsimp only at hw
    split at hw
    · rename_i hr
      obtain ⟨k, hk, -⟩ := completes_of_follow (pending_attachLink u link) hr
      exact absurd ((handshake_phase u link).mpr ⟨written, k, hk⟩) h
    · have hphase := congrArg Uplink.phase hw
      have hcarrier := congrArg Uplink.carrier hw
      rw [withoutUnread_phase] at hphase
      rw [withoutUnread_carrier] at hcarrier
      refine ⟨hphase, ?_⟩
      cases hc : (u.handshake link).uplink.carrier with
      | absent =>
        rw [hc] at hcarrier
        cases hcarrier
      | live left =>
        rw [hc] at hcarrier
        cases hcarrier
      | dropped left => exact ⟨left, rfl⟩
  · rw [handshake_of_refused written]
    exact ⟨rfl, _, rfl⟩

/-- Streams that agree up to the units that decide the handshake leave the same uplink. -/
theorem handshake_congr {u : Uplink} {link : Link} {other : Inbound} {k : Nat}
    (hd : (u.attachLink link).unlinked.Decided ((Item.units link.inbound).take k))
    (hs : (Item.units other).take k = (Item.units link.inbound).take k) :
    (u.handshake { link with inbound := other }).uplink.withoutUnread =
      (u.handshake link).uplink.withoutUnread := by
  by_cases written : (u.attachLink link).writeSetup.result = .ok ()
  · have written' := (writeSetup_inbound u link other).trans written
    rw [handshake_of_written written, handshake_of_written written']
    have hf := follow_congr (pending_attachLink u link) hd hs
    change (let sent := (link.behind u.setupLines).withoutUnread
      let read := (u.attachLink link).unlinked.follow (Item.units other)
      if read.result = .got () then { read.uplink with settled := true, carrier := .live sent }
      else { read.uplink with
        settled := true
        phase := .disconnected
        carrier := .dropped sent.shutdown }) = _
    rw [hf]
  · exact handshake_congr_of_refused written other

end Uplink

end PoolUplink
