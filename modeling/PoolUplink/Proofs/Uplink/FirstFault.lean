import PoolUplink.Proofs.Uplink.LastWord
import PoolUplink.Proofs.Uplink.Outcome
import PoolUplink.Proofs.Wire.Remainder

/-!
# The first fault of a handshake

A handshake fails because the pool does not take its requests, or because a unit of the stream is
fatal that comes before all exchanges are answered. The fault it fails with is the one of the first
such event, and never that the agent is shutting down.
-/

set_option autoImplicit false
set_option relaxedAutoImplicit false

namespace PoolUplink

open PoolUplink.Json (Value)
open PoolUplink.Rpc (Message)
open PoolUplink.Wire (Item Reading Inbound Outbound Remainder)

/-- The fault that a unit is. Where nothing more comes, the time limit is over. -/
inductive FaultOf (limit : Span) : Reading Item → Fault → Prop
  | failed (fault : Fault) : FaultOf limit (.failed fault) fault
  | waiting : FaultOf limit .waiting (.handshakeTimeout limit)
  | unsubscribed {bytes : List UInt8} {result error : Option Value} {fault : Fault} :
      Message.ofLine bytes = .ok (.response (some (.string "sub")) result error) →
      Subscription.ofResult result error = .error fault → FaultOf limit (.got (.line bytes)) fault
  | unauthorized {bytes : List UInt8} {result error : Option Value} :
      Message.ofLine bytes = .ok (.response (some (.string "auth")) result error) →
      result ≠ some (.bool true) →
      FaultOf limit (.got (.line bytes)) (.authorizationFailed ("result: " ++
        Json.Inspect.text result ++ ", pool error: " ++ Json.Inspect.text error))

section FaultOf

variable {limit : Span}

private theorem faultOf_item_iff {item : Item} {fault : Fault} :
    FaultOf limit (.got item) fault ↔ Notice.ofItem item = .error fault := by
  rw [Notice.ofItem_eq_error_iff]
  constructor
  · intro h
    cases h with
    | unsubscribed hm hs =>
      exact ⟨_, .subscribe, _, _, rfl, hm, Notice.ofExchange_eq_error_iff.mpr (Or.inl ⟨rfl, hs⟩)⟩
    | unauthorized hm ha =>
      exact ⟨_, .authorize, _, _, rfl, hm,
        Notice.ofExchange_eq_error_iff.mpr (Or.inr ⟨rfl, ha, rfl⟩)⟩
  · rintro ⟨bytes, e, result, error, rfl, hm, h⟩
    rcases Notice.ofExchange_eq_error_iff.mp h with ⟨rfl, hs⟩ | ⟨rfl, ha, rfl⟩
    · exact .unsubscribed hm hs
    · exact .unauthorized hm ha

private theorem FaultOf.fatal {x : Reading Item} {fault : Fault} (h : FaultOf limit x fault) :
    Fatal x := by
  cases x with
  | failed reason => exact .failed reason
  | waiting => exact .waiting
  | got item => exact (fatal_iff item).mpr ⟨fault, faultOf_item_iff.mp h⟩

theorem FaultOf.unique {x : Reading Item} {fault other : Fault} (h : FaultOf limit x fault)
    (h' : FaultOf limit x other) : fault = other := by
  cases x with
  | failed reason =>
    cases h
    cases h'
    rfl
  | waiting =>
    cases h
    cases h'
    rfl
  | got item => exact Except.error.inj ((faultOf_item_iff.mp h).symm.trans (faultOf_item_iff.mp h'))

end FaultOf

section Shutdown

private theorem Wire.Remainder.reading_ne_shutdown (r : Remainder) (ending : Wire.Ending) :
    r.reading ending ≠ .failed .shutdown := by
  cases r <;> cases ending <;> simp [reading, Wire.Ending.reading]

theorem Wire.Item.shutdown_not_mem_units (s : Inbound) : .failed .shutdown ∉ units s := by
  obtain ⟨ps, r, hbytes⟩ := Wire.exists_packets_remainder s.remaining
  have hcursor : s.cursor = ⟨ps.flatMap Wire.Packet.bytes ++ r.bytes, s.ending⟩ :=
    Inbound.cursor_eq hbytes rfl
  rw [units_of_packets_remainder ps r hcursor, List.mem_append, List.mem_map, List.mem_singleton]
  rintro (⟨p, -, h⟩ | h)
  · cases h
  · exact r.reading_ne_shutdown s.ending h.symm

private theorem FaultOf.ne_shutdown {limit : Span} {s : Inbound} {x : Reading Item} {fault : Fault}
    (mem : x ∈ Item.units s) (h : FaultOf limit x fault) : fault ≠ .shutdown := by
  rintro rfl
  cases h with
  | failed => exact Item.shutdown_not_mem_units s mem
  | unsubscribed hm hs =>
    rcases Subscription.fault_of_ofResult hs with ⟨reason, h⟩ | ⟨size, h⟩ <;> cases h

namespace Wire.Outbound

private theorem fault_of_flush {s : Outbound} {fault : Fault} (h : s.flush.1 = .error fault) :
    fault = refused := by
  simp only [flush] at h
  split at h
  · cases h
  · cases h
    rfl

private theorem fault_of_take {s : Outbound} {line : List UInt8} {fault : Fault}
    (h : (s.take line).1 = .error fault) : fault = refused := by
  unfold take at h
  split at h
  · cases h
  · dsimp only at h
    split at h
    · cases h
    · cases h
      rfl

private theorem fault_of_writeLine {s : Outbound} {line : List UInt8} {fault : Fault}
    (h : (s.writeLine line).1 = .error fault) : fault = refused := by
  simp only [writeLine] at h
  split at h
  · rename_i reason t hroom
    cases h
    split at hroom
    · exact fault_of_flush (congrArg Prod.fst hroom)
    · cases hroom
  · split at h
    · rename_i reason v htake
      cases h
      exact fault_of_take (congrArg Prod.fst htake)
    · exact fault_of_flush h

theorem fault_of_writeLines {s : Outbound} {lines : List (List UInt8)} {fault : Fault}
    (h : (s.writeLines lines).1 = .error fault) : fault = refused := by
  induction lines generalizing s with
  | nil =>
    rw [writeLines] at h
    cases h
  | cons line rest ih =>
    rw [writeLines] at h
    split at h
    · rename_i reason t hline
      cases h
      exact fault_of_writeLine (congrArg Prod.fst hline)
    · exact ih h

end Wire.Outbound

end Shutdown

namespace Uplink

def verdict (limit : Span) : Reading Unit → Except Fault Unit
  | .got () => .ok ()
  | .failed fault => .error fault
  | .waiting => .error (.handshakeTimeout limit)

theorem exchange_result_of_refused {u : Uplink} {fault : Fault}
    (refused : u.writeSetup.result = .error fault) : u.exchange.result = .error fault := by
  unfold exchange
  simp only [refused]

private theorem exchange_verdict {u : Uplink} (written : u.writeSetup.result = .ok ()) :
    u.exchange.result = verdict u.limit u.writeSetup.uplink.consume.result := by
  unfold exchange
  simp only [written]
  cases u.writeSetup.uplink.consume.result <;> rfl

private theorem heed_stopping (u : Uplink) (n : Notice) : (u.heed n).stopping = u.stopping := by
  rw [heed_eq]

private theorem follow_fault {u : Uplink} (h : u.Pending) (running : u.stopping = false)
    {limit : Span} {us : List (Reading Item)} (ends : ∃ x ∈ us, Fatal x) {fault : Fault}
    (failed : verdict limit (u.follow us).result = .error fault) :
    ∃ front x later, us = front ++ x :: later ∧ (∀ y ∈ front, ¬ Fatal y) ∧
      ¬ u.Completes front ∧ FaultOf limit x fault := by
  induction us generalizing u with
  | nil =>
    obtain ⟨x, hx, -⟩ := ends
    cases hx
  | cons x us ih =>
    -- a first unit that is fatal has nothing before it
    have first (hx : FaultOf limit x fault) : ∃ front y later, x :: us = front ++ y :: later ∧
        (∀ z ∈ front, ¬ Fatal z) ∧ ¬ u.Completes front ∧ FaultOf limit y fault :=
      ⟨[], x, us, rfl, fun y hy => absurd hy List.not_mem_nil, h.not_completes_nil, hx⟩
    cases x with
    | waiting =>
      rw [follow, if_pos h.inHandshake, running] at failed
      cases failed
      exact first .waiting
    | failed reason =>
      rw [follow, if_pos h.inHandshake] at failed
      cases failed
      exact first (.failed fault)
    | got item =>
      cases hn : Notice.ofItem item with
      | error reason =>
        rw [follow_of_error h.inHandshake (onItem_of_error hn u)] at failed
        cases failed
        exact first (faultOf_item_iff.mpr hn)
      | ok n =>
        rw [follow_of_ok h.inHandshake (onItem_of_ok hn u)] at failed
        rcases heed_pending h n with ha | hp
        · rw [follow_of_authorized ha] at failed
          cases failed
        · have ends' : ∃ x ∈ us, Fatal x := by
            obtain ⟨y, hy, fatal⟩ := ends
            rcases List.mem_cons.mp hy with rfl | hy
            · exact absurd fatal (not_fatal_of_ok hn)
            · exact ⟨y, hy, fatal⟩
          obtain ⟨front, x, later, rfl, sound, undone, hx⟩ :=
            ih hp ((heed_stopping u n).trans running) ends' failed
          refine ⟨.got item :: front, x, later, rfl, ?_, ?_, hx⟩
          · intro y hy
            rcases List.mem_cons.mp hy with rfl | hy
            · exact not_fatal_of_ok hn
            · exact sound y hy
          · rwa [completes_cons h hn]

/-- The first fault that the handshake of a new uplink meets: the one that writing the requests
fails with, or the one of the first fatal unit, if an exchange has no answer before it. -/
inductive MeetsFirst (u : Uplink) (link : Link) : Fault → Prop
  | writing {fault : Fault} : (u.attachLink link).writeSetup.result = .error fault →
      MeetsFirst u link fault
  | reading {front later : List (Reading Item)} {x : Reading Item} {fault : Fault} :
      (u.attachLink link).writeSetup.result = .ok () →
      Item.units link.inbound = front ++ x :: later → (∀ y ∈ front, ¬ Fatal y) →
      (∃ e, ∀ y ∈ front, ¬ Answers e y) → FaultOf u.limit x fault → MeetsFirst u link fault

theorem MeetsFirst.unique {u : Uplink} {link : Link} {fault other : Fault}
    (h : MeetsFirst u link fault) (h' : MeetsFirst u link other) : fault = other := by
  cases h with
  | writing refused =>
    cases h' with
    | writing refused' => exact Except.error.inj (refused.symm.trans refused')
    | reading written => cases refused.symm.trans written
  | @reading front later x _ written units sound _ hx =>
    cases h' with
    | writing refused => cases refused.symm.trans written
    | @reading front' later' x' _ _ units' sound' _ hx' =>
      -- two fronts without a fatal unit, each with one behind it, are the same
      rcases List.append_eq_append_iff.mp (units.symm.trans units') with
        ⟨more, rfl, hmore⟩ | ⟨more, rfl, hmore⟩
      · cases more with
        | nil =>
          cases hmore
          exact hx.unique hx'
        | cons y more =>
          cases hmore
          exact absurd hx.fatal (sound' x (by simp))
      · cases more with
        | nil =>
          cases hmore
          exact hx.unique hx'
        | cons y more =>
          cases hmore
          exact absurd hx'.fatal (sound x' (by simp))

theorem MeetsFirst.ne_shutdown {u : Uplink} {link : Link} {fault : Fault}
    (h : MeetsFirst u link fault) : fault ≠ .shutdown := by
  cases h with
  | writing refused =>
    rw [(writeSetup_attachLink u link).1] at refused
    obtain rfl := Outbound.fault_of_writeLines refused
    intro h
    cases h
  | @reading front later x _ _ units _ _ hx =>
    have mem : x ∈ Item.units link.inbound := by simp [units]
    exact hx.ne_shutdown mem

theorem exchange_fault {u : Uplink} (answered : u.answered = .nothing)
    (running : u.stopping = false) {link : Link} {fault : Fault}
    (failed : (u.attachLink link).exchange.result = .error fault) : MeetsFirst u link fault := by
  cases hw : (u.attachLink link).writeSetup.result with
  | error reason =>
    rw [exchange_result_of_refused hw] at failed
    exact .writing (hw.trans failed)
  | ok done =>
    rw [exchange_verdict hw, (consume_readsAs u link).result] at failed
    obtain ⟨front, x, later, units, sound, unanswered, hx⟩ := follow_fault
      (pending_attachLink u link) running (Item.exists_fatal link.inbound) failed
    refine .reading hw units sound ?_ hx
    rw [completes_iff_of_nothing (show (u.attachLink link).unlinked.answered = .nothing from
      answered), and_iff_right sound] at unanswered
    simpa using unanswered

end Uplink

end PoolUplink
