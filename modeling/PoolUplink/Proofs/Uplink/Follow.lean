import PoolUplink.Proofs.Uplink.Fatal

/-!
# Reading and reacting, unit by unit

What a handshake makes of the pool's stream is a function of the units of the stream: chunks show
in the activities alone, and the link is handed through.
-/

set_option autoImplicit false
set_option relaxedAutoImplicit false

namespace PoolUplink

open PoolUplink.Json (Value)
open PoolUplink.Rpc (Message)
open PoolUplink.Rpc.Setup (Exchange)
open PoolUplink.Wire (Item Reading Inbound)

def Activity.apartFromChunks (trail : List Activity) : List Activity :=
  trail.filter fun
    | .began _ => false
    | _ => true

private theorem Activity.apartFromChunks_append (before after : List Activity) :
    apartFromChunks (before ++ after) = apartFromChunks before ++ apartFromChunks after :=
  List.filter_append ..

theorem Activity.filterMap_apartFromChunks {β : Type} {p : Activity → Option β}
    (blind : ∀ phase, p (.began phase) = none) (trail : List Activity) :
    (apartFromChunks trail).filterMap p = trail.filterMap p := by
  rw [apartFromChunks, List.filterMap_filter]
  refine List.filterMap_congr fun a _ => ?_
  cases a with
  | began phase => exact (blind phase).symm
  | _ => rfl

namespace Uplink

def unlinked (u : Uplink) : Uplink := { u with carrier := .absent }

/-- Reads units off a list, and reacts, while the handshake waits for responses. -/
def follow (u : Uplink) (units : List (Reading Item)) : Turn (Reading Unit) :=
  if u.phase.inHandshake then
    match units with
    | [] => ⟨.waiting, u, []⟩
    | .waiting :: _ => ⟨if u.stopping then .failed .shutdown else .waiting, u, []⟩
    | .failed fault :: _ => ⟨.failed fault, u, []⟩
    | .got item :: rest =>
      match u.onItem item with
      | (.error fault, done) => ⟨.failed fault, u, done⟩
      | (.ok v, done) =>
        let later := v.follow rest
        ⟨later.result, later.uplink, done ++ later.trail⟩
  else ⟨.got (), u, []⟩

private theorem onVersionMask_unlinked (u : Uplink) (params : Value) :
    u.unlinked.onVersionMask params =
      ((u.onVersionMask params).1.unlinked, (u.onVersionMask params).2) := by
  unfold onVersionMask
  cases params.items? with
  | none => rfl
  | some items =>
    cases items with
    | nil => rfl
    | cons first rest =>
      dsimp only
      cases first.string? with
      | none => rfl
      | some text =>
        dsimp only
        cases VersionMask.ofText? text <;> rfl

private theorem onRequest_unlinked (u : Uplink) (method : String) (params : Value) :
    u.unlinked.onRequest method params =
      ((u.onRequest method params).1.unlinked, (u.onRequest method params).2) := by
  unfold onRequest
  split
  · exact onVersionMask_unlinked u params
  · split <;> rfl

private theorem promote_unlinked (u : Uplink) :
    u.unlinked.promote = (u.promote.1.unlinked, u.promote.2) := by
  unfold promote
  change (if u.answered.complete && u.phase == .subscribed then _ else _) = _
  split <;> rfl

private theorem onExchange_unlinked (u : Uplink) (e : Exchange) (result error : Option Value) :
    u.unlinked.onExchange e result error =
      ((u.onExchange e result error).1.map unlinked, (u.onExchange e result error).2) := by
  cases e with
  | subscribe =>
    simp only [onExchange, onSubscribe]
    cases Subscription.ofResult result error <;> rfl
  | configure => rfl
  | features => rfl
  | authorize =>
    simp only [onExchange, onAuthorize]
    cases isTrue result <;> rfl

private theorem onResponse_unlinked (u : Uplink) (id : Option String)
    (result error : Option Value) :
    u.unlinked.onResponse id result error =
      ((u.onResponse id result error).1.map unlinked, (u.onResponse id result error).2) := by
  unfold onResponse
  cases id.bind Exchange.ofId? with
  | none =>
    simp only [promote_unlinked]
    rfl
  | some e =>
    simp only [onExchange_unlinked]
    rcases u.onExchange e result error with ⟨reaction, records⟩
    cases reaction with
    | error fault => rfl
    | ok v =>
      simp only [Except.map, promote_unlinked]

private theorem onItem_unlinked (u : Uplink) (item : Item) :
    u.unlinked.onItem item = ((u.onItem item).1.map unlinked, (u.onItem item).2) := by
  cases item with
  | frame header => rfl
  | line bytes =>
    simp only [onItem, onLine]
    cases Message.ofLine bytes with
    | error fault => rfl
    | ok m =>
      cases m with
      | request id method params =>
        simp only [onMessage, onRequest_unlinked]
        rfl
      | response id result error => simp only [onMessage, onResponse_unlinked]

theorem onItem_logged (u : Uplink) (item : Item) :
    ∀ a ∈ (u.onItem item).2, ∃ record, a = .logged record := by
  cases item with
  | frame header =>
    intro a ha
    obtain rfl := List.mem_singleton.mp ha
    exact ⟨_, rfl⟩
  | line bytes =>
    intro a ha
    obtain ⟨record, -, rfl⟩ := List.mem_map.mp ha
    exact ⟨record, rfl⟩

private theorem apartFromChunks_onItem (u : Uplink) (item : Item) :
    Activity.apartFromChunks (u.onItem item).2 = (u.onItem item).2 := by
  apply List.filter_eq_self.mpr
  intro a ha
  obtain ⟨record, rfl⟩ := onItem_logged u item a ha
  rfl

private theorem apartFromChunks_begun (phase : Phase) (before after : Inbound) :
    Activity.apartFromChunks (begun phase before after) = [] := by
  apply List.filter_eq_nil_iff.mpr
  intro a ha
  obtain rfl := List.eq_of_mem_replicate ha
  exact Bool.false_ne_true

theorem follow_of_ok {u v : Uplink} {item : Item} {done : List Activity}
    (hp : u.phase.inHandshake = true) (h : u.onItem item = (.ok v, done))
    (rest : List (Reading Item)) :
    u.follow (.got item :: rest) =
      ⟨(v.follow rest).result, (v.follow rest).uplink, done ++ (v.follow rest).trail⟩ := by
  rw [follow, if_pos hp, h]

theorem follow_of_error {u : Uplink} {item : Item} {fault : Fault} {done : List Activity}
    (hp : u.phase.inHandshake = true) (h : u.onItem item = (.error fault, done))
    (rest : List (Reading Item)) :
    u.follow (.got item :: rest) = ⟨.failed fault, u, done⟩ := by
  rw [follow, if_pos hp, h]

/-- A turn over a link, behind what was done before, that is another one but for the link, of
which it reads, and the chunks it begins. -/
structure ReadsAs (past : List Activity) (link : Link) (t s : Turn (Reading Unit)) : Prop where
  result : t.result = s.result
  uplink : t.uplink.unlinked = s.uplink
  carrier : ∃ inbound, t.uplink.carrier = .live { link with inbound }
  trail : Activity.apartFromChunks t.trail =
    Activity.apartFromChunks past.reverse ++ s.trail

/-- Reading and reacting depends on the units of the stream alone. -/
theorem consumeFrom_readsAs (past : List Activity) (u : Uplink) (link : Link) :
    ReadsAs past link (consumeFrom past u link) (u.unlinked.follow (Item.units link.inbound)) := by
  fun_induction consumeFrom past u link with
  | case1 past u link hp inbound hread =>
    have hu : u.unlinked.phase.inHandshake = true := hp
    rw [Item.units_eq, hread, follow, if_pos hu]
    exact ⟨rfl, rfl, ⟨inbound, rfl⟩, by
      simp [Activity.apartFromChunks_append, apartFromChunks_begun]⟩
  | case2 past u link hp fault inbound hread =>
    have hu : u.unlinked.phase.inHandshake = true := hp
    rw [Item.units_eq, hread, follow, if_pos hu]
    exact ⟨rfl, rfl, ⟨inbound, rfl⟩, by
      simp [Activity.apartFromChunks_append, apartFromChunks_begun]⟩
  | case3 past u link hp item inbound hread reading done doing fault hitem =>
    have hu : u.unlinked.phase.inHandshake = true := hp
    have hdone : u.unlinked.onItem item = (.error fault, done) := by
      change reading.unlinked.onItem item = _
      rw [onItem_unlinked, hitem]
      rfl
    have hlogged := apartFromChunks_onItem reading item
    rw [hitem] at hlogged
    rw [Item.units_eq, hread, follow_of_error hu hdone]
    exact ⟨rfl, rfl, ⟨inbound, rfl⟩, by
      simp [doing, Activity.apartFromChunks_append, apartFromChunks_begun, hlogged]⟩
  | case4 past u link hp item inbound hread reading done doing v hitem ih =>
    -- what the item did belongs to the past of the rest, and to the trail of what is followed
    have hu : u.unlinked.phase.inHandshake = true := hp
    have hdone : u.unlinked.onItem item = (.ok v.unlinked, done) := by
      change reading.unlinked.onItem item = _
      rw [onItem_unlinked, hitem]
      rfl
    have hlogged := apartFromChunks_onItem reading item
    rw [hitem] at hlogged
    rw [Item.units_eq, hread, follow_of_ok hu hdone]
    refine ⟨ih.result, ih.uplink, ih.carrier, ?_⟩
    rw [ih.trail]
    simp [doing, Activity.apartFromChunks_append, apartFromChunks_begun, hlogged]
  | case5 past u link hp =>
    have hu : ¬ u.unlinked.phase.inHandshake = true := hp
    rw [follow.eq_def, if_neg hu]
    exact ⟨rfl, rfl, ⟨link.inbound, rfl⟩, (List.append_nil _).symm⟩

end Uplink

end PoolUplink
