import PoolUplink.Proofs.Uplink.FirstFault

/-!
# What the log tells of a handshake

A handshake says at the end of its log how it went, and nowhere else: that it is complete, or what
it failed of. All records before are quiet, but for the one of a request that was not written.
-/

set_option autoImplicit false
set_option relaxedAutoImplicit false

namespace PoolUplink

open PoolUplink.Json (Value)
open PoolUplink.Rpc (Message)
open PoolUplink.Rpc.Setup (Exchange)
open PoolUplink.Wire (Item Reading Outbound)

namespace Log

/-- A record that tells neither of a failure nor of the end of a handshake. -/
def Record.Quiet (r : Record) : Prop :=
  r.level ≠ .error ∧ r.message ≠ "Handshake complete"

/-- Records that end in others and are quiet before. -/
def EndsIn (last records : List Record) : Prop :=
  ∃ before, (∀ r ∈ before, r.Quiet) ∧ records = before ++ last

private theorem endsIn_nil {records : List Record} (h : ∀ r ∈ records, r.Quiet) :
    EndsIn [] records :=
  ⟨records, h, (List.append_nil records).symm⟩

private theorem EndsIn.quiet {records : List Record} (h : EndsIn [] records) :
    ∀ r ∈ records, r.Quiet := by
  obtain ⟨before, hbefore, rfl⟩ := h
  rwa [List.append_nil]

private theorem EndsIn.behind {first records last : List Record} (quiet : ∀ r ∈ first, r.Quiet)
    (h : EndsIn last records) : EndsIn last (first ++ records) := by
  obtain ⟨before, hbefore, rfl⟩ := h
  refine ⟨first ++ before, ?_, (List.append_assoc ..).symm⟩
  exact List.forall_mem_append.mpr ⟨quiet, hbefore⟩

private theorem EndsIn.append {records last : List Record} (h : EndsIn last records)
    (more : List Record) : EndsIn (last ++ more) (records ++ more) := by
  obtain ⟨before, hbefore, rfl⟩ := h
  exact ⟨before, hbefore, List.append_assoc ..⟩

private theorem EndsIn.filter {records last : List Record} {p : Record → Bool}
    (h : EndsIn last records) (kept : ∀ r ∈ last, p r = true) : EndsIn last (records.filter p) := by
  obtain ⟨before, hbefore, rfl⟩ := h
  refine ⟨before.filter p, fun r hr => hbefore r (List.mem_of_mem_filter hr), ?_⟩
  rw [List.filter_append, List.filter_eq_self.mpr kept]

private theorem Filter.shows_of_debug {f : Filter} {target : String}
    (h : f.shows .debug target = true)
    {level : Level} (ranks : level.rank ≤ Level.debug.rank) : f.shows level target = true := by
  obtain ⟨scope, threshold⟩ := f
  simp only [shows, Bool.and_eq_true] at h ⊢
  refine ⟨h.1, ?_⟩
  cases threshold with
  | none => exact absurd h.2 Bool.false_ne_true
  | some least =>
    have hleast : Level.debug.rank ≤ least.rank := of_decide_eq_true h.2
    exact decide_eq_true (ranks.trans hleast)

end Log

private theorem Activity.filterMap_logged (records : List Log.Record) :
    (records.map Activity.logged).filterMap Activity.record? = records := by
  rw [List.filterMap_map]
  exact List.filterMap_some

namespace Uplink

open PoolUplink.Log (EndsIn endsIn_nil)

private theorem note_quiet (u : Uplink) {level : Log.Level} {message : String}
    (fields : List (String × String)) (mild : level ≠ .error)
    (other : message ≠ "Handshake complete") : ∀ r ∈ [u.note level message fields], r.Quiet :=
  List.forall_mem_singleton.mpr ⟨mild, other⟩

section Reactions

private theorem onRequest_quiet (u : Uplink) (method : String) (params : Value) :
    (∀ r ∈ (u.onRequest method params).2, r.Quiet) ∧
      (u.onRequest method params).1.phase = u.phase := by
  unfold onRequest onVersionMask
  split
  · split
    · split
      · exact ⟨u.note_quiet _ (by decide) (by decide), rfl⟩
      · split
        · exact ⟨u.note_quiet _ (by decide) (by decide), rfl⟩
        · exact ⟨u.note_quiet _ (by decide) (by decide), rfl⟩
    · exact ⟨List.forall_mem_nil _, rfl⟩
  · split
    · exact ⟨List.forall_mem_singleton.mpr ⟨by simp, by simp⟩, rfl⟩
    · exact ⟨u.note_quiet _ (by decide) (by decide), rfl⟩

private theorem onFeatures_quiet (u : Uplink) (result : Option Value) :
    ∀ r ∈ (u.onFeatures result).2, r.Quiet := by
  unfold onFeatures
  refine List.forall_mem_append.mpr ⟨List.forall_mem_append.mpr ⟨?_, ?_⟩, ?_⟩
  · intro r hr
    obtain ⟨p, -, rfl⟩ := List.mem_map.mp hr
    exact u.note_quiet _ (by decide) (by decide) _ List.mem_cons_self
  · split
    · exact List.forall_mem_nil _
    · exact u.note_quiet _ (by decide) (by decide)
  · split
    · exact u.note_quiet _ (by decide) (by decide)
    · exact List.forall_mem_nil _

private theorem onExchange_quiet {u : Uplink} (incomplete : u.phase ≠ .authorized) (e : Exchange)
    (result error : Option Value) :
    (∀ r ∈ (u.onExchange e result error).2, r.Quiet) ∧
      ∀ v, (u.onExchange e result error).1 = .ok v → v.phase ≠ .authorized := by
  cases e with
  | subscribe =>
    simp only [onExchange, onSubscribe]
    cases Subscription.ofResult result error with
    | error fault => exact ⟨List.forall_mem_nil _, fun v hv => by cases hv⟩
    | ok s =>
      refine ⟨u.note_quiet _ (by decide) (by decide), ?_⟩
      rintro v ⟨⟩ h
      cases h
  | configure =>
    refine ⟨u.note_quiet _ (by decide) (by decide), ?_⟩
    rintro v ⟨⟩
    exact incomplete
  | features =>
    refine ⟨u.onFeatures_quiet result, ?_⟩
    rintro v ⟨⟩
    exact incomplete
  | authorize =>
    simp only [onExchange, onAuthorize]
    split
    · refine ⟨u.note_quiet _ (by decide) (by decide), ?_⟩
      rintro v ⟨⟩
      exact incomplete
    · exact ⟨List.forall_mem_nil _, fun v hv => by cases hv⟩

/-- What a reaction tells at its end: that the handshake is complete, if it has become so. -/
def closing : Except Fault Uplink → List Log.Record
  | .ok v => if v.phase = .authorized then [v.note .debug "Handshake complete" []] else []
  | .error _ => []

private theorem closing_of_incomplete {v : Uplink} (h : v.phase ≠ .authorized) :
    closing (.ok v) = [] :=
  if_neg h

private theorem promote_snd {u : Uplink} (incomplete : u.phase ≠ .authorized) :
    u.promote.2 = closing (.ok u.promote.1) := by
  unfold promote
  split
  · rfl
  · exact (closing_of_incomplete incomplete).symm

private theorem onResponse_endsIn {u : Uplink} (incomplete : u.phase ≠ .authorized)
    (id : Option String) (result error : Option Value) :
    EndsIn (closing (u.onResponse id result error).1) (u.onResponse id result error).2 := by
  unfold onResponse
  cases id.bind Exchange.ofId? with
  | none =>
    rw [← promote_snd incomplete]
    exact ⟨_, u.note_quiet _ (by decide) (by decide), rfl⟩
  | some e =>
    obtain ⟨quiet, still⟩ := onExchange_quiet incomplete e result error
    dsimp only
    generalize u.onExchange e result error = done at quiet still ⊢
    obtain ⟨reaction, records⟩ := done
    cases reaction with
    | error fault => exact endsIn_nil quiet
    | ok v =>
      dsimp only
      rw [← promote_snd (still v rfl)]
      exact ⟨records, quiet, rfl⟩

private theorem onItem_endsIn {u : Uplink} (incomplete : u.phase ≠ .authorized) (item : Item) :
    EndsIn (closing (u.onItem item).1) ((u.onItem item).2.filterMap Activity.record?) := by
  cases item with
  | frame header =>
    refine (closing_of_incomplete incomplete).symm ▸ endsIn_nil ?_
    exact List.forall_mem_singleton.mpr ⟨by simp, by simp⟩
  | line bytes =>
    have received : (Link.received bytes).Quiet :=
      ⟨by simp [Link.received], by simp [Link.received]⟩
    have hline : EndsIn (closing (u.onLine bytes).1) (u.onLine bytes).2 := by
      unfold onLine
      cases Message.ofLine bytes with
      | error fault =>
        refine (closing_of_incomplete incomplete).symm ▸ endsIn_nil ?_
        exact u.note_quiet _ (by decide) (by decide)
      | ok m =>
        cases m with
        | request id method params =>
          obtain ⟨quiet, same⟩ := u.onRequest_quiet method params
          exact (closing_of_incomplete (same ▸ incomplete)).symm ▸ endsIn_nil quiet
        | response id result error => exact onResponse_endsIn incomplete _ result error
    simp only [onItem]
    rw [Activity.filterMap_logged]
    exact hline.behind (List.forall_mem_singleton.mpr received)

end Reactions

private theorem heed_note (u : Uplink) (n : Notice) (level : Log.Level) (message : String)
    (fields : List (String × String)) :
    (u.heed n).note level message fields = u.note level message fields := by
  rw [heed_eq]
  rfl

private theorem Pending.incomplete {u : Uplink} (h : u.Pending) : u.phase ≠ .authorized := by
  rcases h with h | ⟨h, -⟩ <;> rw [h] <;> decide

private theorem follow_endsIn {u : Uplink} (h : u.Pending) (us : List (Reading Item)) :
    EndsIn (if (u.follow us).result = .got () then [u.note .debug "Handshake complete" []] else [])
      (u.follow us).records := by
  induction us generalizing u with
  | nil =>
    rw [follow, if_pos h.inHandshake]
    exact endsIn_nil (List.forall_mem_nil _)
  | cons x us ih =>
    cases x with
    | waiting =>
      rw [follow, if_pos h.inHandshake]
      split <;> exact endsIn_nil (List.forall_mem_nil _)
    | failed fault =>
      rw [follow, if_pos h.inHandshake]
      exact endsIn_nil (List.forall_mem_nil _)
    | got item =>
      have hitem := onItem_endsIn h.incomplete item
      cases hn : Notice.ofItem item with
      | error fault =>
        rw [follow_of_error h.inHandshake (onItem_of_error hn u)]
        rw [onItem_fst, hn] at hitem
        exact hitem
      | ok n =>
        rw [onItem_fst, hn] at hitem
        rw [follow_of_ok h.inHandshake (onItem_of_ok hn u)]
        simp only [Turn.records, List.filterMap_append]
        rcases heed_pending h n with ha | hp
        · rw [follow_of_authorized ha, if_pos rfl, ← heed_note u n]
          change EndsIn (closing (.ok (u.heed n))) _ at hitem
          rw [closing, if_pos ha] at hitem
          rwa [List.filterMap_nil, List.append_nil]
        · change EndsIn (closing (.ok (u.heed n))) _ at hitem
          rw [closing_of_incomplete hp.incomplete] at hitem
          have hlater := ih hp
          rw [heed_note] at hlater
          exact hlater.behind hitem.quiet

private theorem writeAll_quiet (u : Uplink) (requests : List Message) :
    ∀ r ∈ (u.writeAll requests).records, r.Quiet := by
  have sending (line : List UInt8) : (Link.sending line).Quiet :=
    ⟨by simp [Link.sending], by simp [Link.sending]⟩
  have first (v : Uplink) (request : Message) : ∀ r ∈ (v.write request).records, r.Quiet := by
    unfold write
    split
    · split
      · exact List.forall_mem_singleton.mpr (sending _)
      · exact List.forall_mem_nil _
    · exact List.forall_mem_nil _
  induction requests generalizing u with
  | nil => exact List.forall_mem_nil _
  | cons request rest ih =>
    unfold writeAll
    dsimp only
    split
    · exact first u request
    · rw [Turn.records, List.filterMap_append]
      exact List.forall_mem_append.mpr ⟨first u request, ih _⟩

private theorem writeSetup_quiet (u : Uplink) : ∀ r ∈ u.writeSetup.records, r.Quiet :=
  u.writeAll_quiet (Rpc.Setup.all u.settings.userAgent u.account)

private theorem exchange_endsIn_of_refused {u : Uplink} {link : Link} {fault : Fault}
    (refused : (u.attachLink link).writeSetup.result = .error fault) :
    EndsIn [(u.attachLink link).note .error "Write JSON request failed" [("error", fault.message)]]
      (u.attachLink link).exchange.records := by
  refine ⟨_, (u.attachLink link).writeSetup_quiet, ?_⟩
  unfold exchange
  simp only [refused, Turn.records, List.filterMap_append, (writeSetup_attachLink u link).2]
  rfl

private theorem consume_records (u : Uplink) (link : Link) :
    (u.attachLink link).writeSetup.uplink.consume.records =
      ((u.attachLink link).unlinked.follow (Item.units link.inbound)).records := by
  have htrail := congrArg (List.filterMap Activity.record?) (consume_readsAs u link).trail
  rwa [Activity.filterMap_apartFromChunks fun _ => rfl] at htrail

private theorem exchange_endsIn_of_written {u : Uplink} {link : Link}
    (written : (u.attachLink link).writeSetup.result = .ok ()) :
    EndsIn (if (u.attachLink link).exchange.result = .ok ()
        then [(u.attachLink link).note .debug "Handshake complete" []] else [])
      (u.attachLink link).exchange.records := by
  have hread := follow_endsIn (pending_attachLink u link) (Item.units link.inbound)
  rw [← consume_records, ← (consume_readsAs u link).result] at hread
  simp only [(exchange_of_written written).1]
  have happend : (u.attachLink link).exchange.records =
      (u.attachLink link).writeSetup.records ++
        (u.attachLink link).writeSetup.uplink.consume.records := by
    unfold exchange
    simp only [written, Turn.records, List.filterMap_append]
  rw [happend]
  exact hread.behind (u.attachLink link).writeSetup_quiet

private theorem exchange_known (u : Uplink) (link : Link) :
    (u.attachLink link).exchange.uplink.account = u.account ∧
      (u.attachLink link).exchange.uplink.address = (u.attachLink link).address := by
  have unlinked {v w : Uplink} (h : v.unlinked = w) :
      v.account = w.account ∧ v.address = w.address := by
    subst h
    exact ⟨rfl, rfl⟩
  by_cases written : (u.attachLink link).writeSetup.result = .ok ()
  · have hread := (consume_readsAs u link).uplink
    rw [follow_told] at hread
    obtain ⟨haccount, haddress⟩ := unlinked hread
    rw [heedAll_eq] at haccount haddress
    rw [(exchange_of_written written).2]
    exact ⟨haccount, haddress⟩
  · rw [(exchange_of_refused written).2, (writeSetup_attachLink u link).2]
    exact ⟨rfl, rfl⟩

private theorem settle_records_of_ok {u : Uplink} (done : u.exchange.result = .ok ()) :
    u.settle.records = u.exchange.records := by
  unfold settle
  simp only [done]
  rfl

private theorem settle_records_of_error {u : Uplink} {fault : Fault}
    (failed : u.exchange.result = .error fault) (running : fault ≠ .shutdown) :
    u.settle.records = u.exchange.records ++ [u.exchange.uplink.note .error "Handshake failed"
      [("sub_account", u.exchange.uplink.account), ("error", fault.message)]] := by
  unfold settle
  simp only [failed, Turn.records, List.filterMap_append]
  cases fault with
  | shutdown => exact absurd rfl running
  | _ => rfl

private theorem exchange_ok_iff (u : Uplink) (link : Link) :
    (u.attachLink link).exchange.result = .ok () ↔
      (u.handshake link).uplink.phase = .authorized := by
  constructor
  · intro done
    have written : (u.attachLink link).writeSetup.result = .ok () := by
      by_contra refused
      exact (exchange_of_refused refused).1 done
    have hread := (exchange_of_written written).1.mp done
    rw [(consume_readsAs u link).result] at hread
    obtain ⟨k, complete, -⟩ := completes_of_follow (pending_attachLink u link) hread
    exact (handshake_phase u link).mpr ⟨written, k, complete⟩
  · intro authorized
    by_contra failed
    rw [handshake, settle_uplink, if_neg failed] at authorized
    cases authorized

private theorem create_fresh {settings : Settings} {account : String} {index : Nat} {u : Uplink}
    (created : create settings account index = .ok u) :
    u.account = account ∧ u.stopping = false := by
  obtain ⟨pool, rfl⟩ := eq_of_create created
  exact ⟨rfl, rfl⟩

def chronicle (u : Uplink) (link : Link) (f : Log.Filter) : List Log.Record :=
  (u.handshake link).records.filter fun r => f.shows r.level r.target

/-- What is shown of the log of a new uplink tells how its handshake has gone, if debug records of
uplinks are shown. One that authorizes the uplink ends with the word that it is complete, and all
before is quiet. One that disconnects it has met a first fault, and ends with the report of that,
of the account and the fault; if it has not written its requests, the report of that comes right
before, of the same fault; and all before is quiet. -/
theorem outcome_logged {settings : Settings} {account : String} {index : Nat} {u : Uplink}
    (created : create settings account index = .ok u) (link : Link) {f : Log.Filter}
    (shown : f.shows .debug target = true) :
    ((u.handshake link).uplink.phase = .authorized →
      EndsIn [(u.attachLink link).note .debug "Handshake complete" []] (u.chronicle link f)) ∧
    ((u.handshake link).uplink.phase = .disconnected →
      ∃ fault, (∀ other, MeetsFirst u link other ↔ other = fault) ∧
        EndsIn
          ((if (u.attachLink link).writeSetup.result = .ok () then []
            else [(u.attachLink link).note .error "Write JSON request failed"
              [("error", fault.message)]]) ++
            [(u.attachLink link).note .error "Handshake failed"
              [("sub_account", account), ("error", fault.message)]])
          (u.chronicle link f)) := by
  obtain ⟨rfl, running⟩ := create_fresh created
  have severe : f.shows .error target = true := Log.Filter.shows_of_debug shown (by decide)
  refine ⟨fun authorized => ?_, fun disconnected => ?_⟩
  · have done := (exchange_ok_iff u link).mpr authorized
    have written : (u.attachLink link).writeSetup.result = .ok () :=
      ((handshake_phase u link).mp authorized).1
    have told := exchange_endsIn_of_written written
    rw [if_pos done, ← settle_records_of_ok done] at told
    exact told.filter (List.forall_mem_singleton.mpr shown)
  · cases hx : (u.attachLink link).exchange.result with
    | ok done =>
      rw [(exchange_ok_iff u link).mp hx] at disconnected
      cases disconnected
    | error fault =>
      have first := exchange_fault (create_answered created) running hx
      refine ⟨fault, fun other => ⟨fun h => h.unique first, fun h => h ▸ first⟩, ?_⟩
      have told := settle_records_of_error hx first.ne_shutdown
      obtain ⟨haccount, haddress⟩ := exchange_known u link
      rw [note, haccount, haddress] at told
      change EndsIn _ ((u.attachLink link).settle.records.filter _)
      rw [told]
      split
      · rename_i written
        have before := exchange_endsIn_of_written written
        rw [if_neg (by rw [hx]; simp)] at before
        exact (before.append _).filter (List.forall_mem_singleton.mpr severe)
      · rename_i refused
        cases hw : (u.attachLink link).writeSetup.result with
        | ok done => exact absurd hw refused
        | error reason =>
          obtain rfl := Except.error.inj ((exchange_result_of_refused hw).symm.trans hx)
          refine ((exchange_endsIn_of_refused hw).append _).filter ?_
          exact List.forall_mem_cons.mpr ⟨severe, List.forall_mem_singleton.mpr severe⟩

def sampleNarrowLink : Link := { sampleLink samplePackets with outbound := .fresh (some 100) }

theorem outcome_logged_of_sampleNarrowLink :
    ∃ u, create sampleSettings "account" 0 = .ok u ∧
      (Log.Filter.ofText "stratum_agent=debug").shows .debug target = true ∧
      (Log.Filter.ofText "stratum_agent=trace").shows .debug target = true ∧
      (u.handshake (sampleLink samplePackets)).uplink.phase = .authorized ∧
      EndsIn [(u.attachLink (sampleLink samplePackets)).note .debug "Handshake complete" []]
        (u.chronicle (sampleLink samplePackets) (Log.Filter.ofText "stratum_agent=debug")) ∧
      (u.handshake sampleNarrowLink).uplink.phase = .disconnected ∧
      MeetsFirst u sampleNarrowLink (.stream "broken pipe") ∧
      EndsIn [⟨.error, target, "Write JSON request failed",
          [("server", "pool:3333"), ("error", "I/O error: broken pipe")]⟩,
        ⟨.error, target, "Handshake failed", [("server", "pool:3333"),
          ("sub_account", "account"), ("error", "I/O error: broken pipe")]⟩]
        (u.chronicle sampleNarrowLink (Log.Filter.ofText "stratum_agent=trace")) := by
  obtain ⟨u, created⟩ : ∃ u, create sampleSettings "account" 0 = .ok u := ⟨_, rfl⟩
  have debug : (Log.Filter.ofText "stratum_agent=debug").shows .debug target = true := by
    decide +kernel
  have trace : (Log.Filter.ofText "stratum_agent=trace").shows .debug target = true := by
    decide +kernel
  have authorized : (u.handshake (sampleLink samplePackets)).uplink.phase = .authorized := by
    cases created
    decide +kernel
  have disconnected : (u.handshake sampleNarrowLink).uplink.phase = .disconnected := by
    cases created
    decide +kernel
  have refused : (u.attachLink sampleNarrowLink).writeSetup.result =
      .error (.stream "broken pipe") := by
    cases created
    decide +kernel
  have complete := (outcome_logged created (sampleLink samplePackets) debug).1 authorized
  obtain ⟨fault, first, failed⟩ := (outcome_logged created sampleNarrowLink trace).2 disconnected
  obtain rfl := (first (.stream "broken pipe")).mp (.writing refused)
  rw [if_neg (by rw [refused]; simp)] at failed
  refine ⟨u, created, debug, trace, authorized, complete, disconnected, .writing refused, ?_⟩
  cases created
  exact failed

end Uplink

end PoolUplink
