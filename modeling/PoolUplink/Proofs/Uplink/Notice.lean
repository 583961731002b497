import PoolUplink.Uplink.Handshake
import Mathlib.Data.List.Induction

/-!
# What an item tells an uplink

The reaction to an item of the pool's stream in two steps: what the item says, which has nothing
to do with the uplink, and what the uplink makes of that. A reaction fails exactly if the item
itself says something fatal.
-/

set_option autoImplicit false
set_option relaxedAutoImplicit false

namespace PoolUplink

open PoolUplink.Json (Value)
open PoolUplink.Rpc (Message)
open PoolUplink.Rpc.Setup (Exchange)
open PoolUplink.Wire (Item)

/-- What an item says to an uplink. -/
inductive Notice where
  | granted (s : Subscription)
  | configured
  | featured (features : Features)
  | authorized
  | masked (mask : UInt32)
  /-- A response that belongs to no exchange. -/
  | strange
  | idle
  deriving DecidableEq, Repr

def VersionMask.ofParams? (params : Value) : Option UInt32 :=
  ((params.items?.bind List.head?).bind Value.string?).bind ofText?

namespace Notice

def ofRequest (method : String) (params : Value) : Notice :=
  if method = "mining.set_version_mask" then (VersionMask.ofParams? params).elim idle masked
  else idle

def ofExchange (exchange : Exchange) (result error : Option Value) : Except Fault Notice :=
  match exchange with
  | .subscribe => (Subscription.ofResult result error).map granted
  | .configure => .ok configured
  | .features => .ok (featured (Features.ofResult result).1)
  | .authorize =>
    if Uplink.isTrue result then .ok authorized
    else .error (.authorizationFailed ("result: " ++ Json.Inspect.text result ++
      ", pool error: " ++ Json.Inspect.text error))

def ofMessage : Message → Except Fault Notice
  | .request _ method params => .ok (ofRequest method params)
  | .response id result error =>
    match (id.bind Value.string?).bind Exchange.ofId? with
    | some exchange => ofExchange exchange result error
    | none => .ok strange

def ofItem : Item → Except Fault Notice
  | .frame _ => .ok idle
  | .line bytes =>
    match Message.ofLine bytes with
    | .ok m => ofMessage m
    | .error _ => .ok idle

def answer? : Notice → Option Exchange
  | granted _ => some .subscribe
  | configured => some .configure
  | featured _ => some .features
  | authorized => some .authorize
  | masked _ => none
  | strange => none
  | idle => none

def grant? : Notice → Option Subscription
  | granted s => some s
  | _ => none

def features? : Notice → Option Features
  | featured features => some features
  | _ => none

def mask? : Notice → Option UInt32
  | masked mask => some mask
  | _ => none

end Notice

namespace Answered

def has (a : Answered) : Exchange → Bool
  | .subscribe => a.subscribe
  | .configure => a.configure
  | .features => a.features
  | .authorize => a.authorize

theorem complete_iff (a : Answered) : a.complete = true ↔ ∀ e, a.has e = true := by
  constructor
  · intro h e
    simp only [complete, Bool.and_eq_true] at h
    obtain ⟨⟨⟨h1, h2⟩, h3⟩, h4⟩ := h
    cases e <;> assumption
  · intro h
    simp only [complete, Bool.and_eq_true]
    exact ⟨⟨⟨h .subscribe, h .configure⟩, h .features⟩, h .authorize⟩

theorem ext_has {a b : Answered} (h : ∀ e, a.has e = b.has e) : a = b := by
  have h1 := h .subscribe
  have h2 := h .configure
  have h3 := h .features
  have h4 := h .authorize
  cases a
  cases b
  simp_all [has]

end Answered

namespace Uplink

/-- The uplink after a promotion that may be due. -/
def promoted (u : Uplink) : Uplink := u.promote.1

theorem promoted_eq (u : Uplink) :
    u.promoted = { u with phase :=
      if u.answered.complete && u.phase == .subscribed then .authorized else u.phase } := by
  unfold promoted promote
  split <;> rfl

def heed (u : Uplink) : Notice → Uplink
  | .granted s => { u with
      sessionId := s.sessionId
      width := s.width
      answered := { u.answered with subscribe := true }
      phase := .subscribed }.promoted
  | .configured => { u with answered := { u.answered with configure := true } }.promoted
  | .featured features =>
    { u with features, answered := { u.answered with features := true } }.promoted
  | .authorized => { u with answered := { u.answered with authorize := true } }.promoted
  | .masked mask => { u with versionMask := mask }
  | .strange => u.promoted
  | .idle => u

private theorem onVersionMask_fst (u : Uplink) (params : Value) :
    (u.onVersionMask params).1 =
      u.heed ((VersionMask.ofParams? params).elim .idle .masked) := by
  unfold onVersionMask VersionMask.ofParams?
  cases params.items? with
  | none => rfl
  | some items =>
    cases items with
    | nil => rfl
    | cons first rest =>
      simp only [Option.bind_some, List.head?_cons]
      cases first.string? with
      | none => rfl
      | some text =>
        simp only [Option.bind_some]
        cases VersionMask.ofText? text <;> rfl

private theorem onRequest_fst (u : Uplink) (method : String) (params : Value) :
    (u.onRequest method params).1 = u.heed (Notice.ofRequest method params) := by
  unfold onRequest Notice.ofRequest
  by_cases h : method = "mining.set_version_mask"
  · rw [if_pos h, if_pos h]
    exact onVersionMask_fst u params
  · rw [if_neg h, if_neg h]
    split <;> rfl

private theorem onResponse_fst (u : Uplink) (id : Option String) (result error : Option Value) :
    (u.onResponse id result error).1 = (match id.bind Exchange.ofId? with
      | some exchange => Notice.ofExchange exchange result error
      | none => .ok .strange).map u.heed := by
  unfold onResponse
  cases id.bind Exchange.ofId? with
  | none => rfl
  | some exchange =>
    cases exchange with
    | subscribe =>
      simp only [onExchange, onSubscribe, Notice.ofExchange]
      cases Subscription.ofResult result error <;> rfl
    | configure => rfl
    | features => rfl
    | authorize =>
      simp only [onExchange, onAuthorize, Notice.ofExchange]
      cases isTrue result <;> rfl

theorem onItem_fst (u : Uplink) (item : Item) :
    (u.onItem item).1 = (Notice.ofItem item).map u.heed := by
  cases item with
  | frame header => rfl
  | line bytes =>
    simp only [onItem, onLine, Notice.ofItem]
    cases Message.ofLine bytes with
    | error fault => rfl
    | ok m =>
      cases m with
      | request id method params =>
        exact congrArg Except.ok (onRequest_fst u method params)
      | response id result error => exact onResponse_fst u _ result error

theorem onLine_fst (u : Uplink) (bytes : List UInt8) :
    (u.onLine bytes).1 = (Notice.ofItem (.line bytes)).map u.heed :=
  onItem_fst u (.line bytes)

theorem heed_of_onItem {u v : Uplink} {item : Item} (h : (u.onItem item).1 = .ok v) :
    ∃ n, Notice.ofItem item = .ok n ∧ v = u.heed n := by
  rw [onItem_fst] at h
  cases hn : Notice.ofItem item with
  | error fault =>
    rw [hn] at h
    cases h
  | ok n =>
    rw [hn] at h
    cases h
    exact ⟨n, rfl, rfl⟩

theorem fault_of_onItem {u : Uplink} {item : Item} {fault : Fault}
    (h : (u.onItem item).1 = .error fault) : Notice.ofItem item = .error fault := by
  rw [onItem_fst] at h
  cases hn : Notice.ofItem item with
  | error other =>
    rw [hn] at h
    cases h
    rfl
  | ok n =>
    rw [hn] at h
    cases h

theorem heed_eq (u : Uplink) (n : Notice) :
    u.heed n = { u with
      sessionId := (n.grant?.map Subscription.sessionId).getD u.sessionId
      width := (n.grant?.map Subscription.width).getD u.width
      features := n.features?.getD u.features
      versionMask := n.mask?.getD u.versionMask
      answered := (u.heed n).answered
      phase := (u.heed n).phase } := by
  cases n <;> simp only [heed, promoted_eq] <;> rfl

theorem heed_answered (u : Uplink) (n : Notice) (e : Exchange) :
    (u.heed n).answered.has e = true ↔ u.answered.has e = true ∨ n.answer? = some e := by
  cases n <;> cases e <;> simp [heed, promoted_eq, Answered.has, Notice.answer?]

/-- The handshake waits for a response, and rightly so: it is not complete. -/
def Pending (u : Uplink) : Prop :=
  u.phase = .connected ∨ (u.phase = .subscribed ∧ u.answered.complete = false)

theorem Pending.inHandshake {u : Uplink} (h : u.Pending) : u.phase.inHandshake = true := by
  rcases h with h | ⟨h, -⟩ <;> rw [h] <;> rfl

theorem heed_phase {u : Uplink} (h : u.Pending) (n : Notice) :
    (u.heed n).phase =
      if u.phase = .subscribed ∨ n.answer? = some .subscribe then
        if (u.heed n).answered.complete then .authorized else .subscribed
      else .connected := by
  rcases h with h | ⟨h, hc⟩
  · cases n <;> simp [heed, promoted_eq, h, Notice.answer?]
  · cases n <;> simp [heed, promoted_eq, h, hc, Notice.answer?]

theorem heed_pending {u : Uplink} (h : u.Pending) (n : Notice) :
    (u.heed n).phase = .authorized ∨ (u.heed n).Pending := by
  unfold Pending
  rw [heed_phase h]
  split
  · cases (u.heed n).answered.complete
    · exact Or.inr (Or.inr ⟨rfl, rfl⟩)
    · exact Or.inl rfl
  · exact Or.inr (Or.inl rfl)

def heedAll (u : Uplink) (ns : List Notice) : Uplink := ns.foldl heed u

private theorem heedAll_append (u : Uplink) (ns ms : List Notice) :
    u.heedAll (ns ++ ms) = (u.heedAll ns).heedAll ms :=
  List.foldl_append

theorem heedAll_eq (u : Uplink) (ns : List Notice) :
    u.heedAll ns = { u with
      sessionId := ((ns.filterMap Notice.grant?).getLast?.map Subscription.sessionId).getD
        u.sessionId
      width := ((ns.filterMap Notice.grant?).getLast?.map Subscription.width).getD u.width
      features := (ns.filterMap Notice.features?).getLast?.getD u.features
      versionMask := (ns.filterMap Notice.mask?).getLast?.getD u.versionMask
      answered := (u.heedAll ns).answered
      phase := (u.heedAll ns).phase } := by
  induction ns using List.reverseRecOn with
  | nil => rfl
  | append_singleton ns n ih =>
    have hn : u.heedAll (ns ++ [n]) = (u.heedAll ns).heed n := heedAll_append u ns [n]
    rw [hn, heed_eq, ih]
    simp only [List.filterMap_append, List.filterMap_cons, List.filterMap_nil]
    cases n <;> simp [Notice.grant?, Notice.features?, Notice.mask?]

theorem heedAll_answered (u : Uplink) (ns : List Notice) (e : Exchange) :
    (u.heedAll ns).answered.has e = true ↔
      u.answered.has e = true ∨ ∃ n ∈ ns, n.answer? = some e := by
  induction ns generalizing u with
  | nil => simp [heedAll]
  | cons n ns ih =>
    have h := ih (u.heed n)
    rw [heed_answered] at h
    simpa [heedAll, or_assoc] using h

end Uplink

end PoolUplink
