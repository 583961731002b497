import PoolUplink.Proofs.Uplink.Settlement
import PoolUplink.Uplink.Attachment

/-!
# Histories of an uplink

Whatever can be done with an uplink, in any order. Only three kinds of steps have to do with
miners; the others neither touch the queue and the miners taken on nor give a handle to anyone.
-/

set_option autoImplicit false
set_option relaxedAutoImplicit false

namespace PoolUplink

open PoolUplink.Wire (Item Reading)

inductive Step where
  | attach (miner : Miner)
  | connect (link : Link)
  | setup
  | consume
  | start (dial : Uplink.Dial)
  | handshake (link : Link)
  | line (bytes : List UInt8)
  | write (request : Rpc.Message)
  | close
  | stop
  | run
  | turnAway
  deriving DecidableEq, Repr

def Step.handlesMiners : Step → Bool
  | attach _ => true
  | run => true
  | turnAway => true
  | _ => false

def Activity.introductions (trail : List Activity) : List (Miner × Handle) :=
  trail.filterMap fun
    | .introduced miner handle => some (miner, handle)
    | _ => none

theorem Activity.introductions_append (before after : List Activity) :
    introductions (before ++ after) = introductions before ++ introductions after :=
  List.filterMap_append ..

theorem Activity.introductions_of_logged {trail : List Activity}
    (h : ∀ a ∈ trail, ∃ record, a = .logged record) : introductions trail = [] := by
  apply List.filterMap_eq_nil_iff.mpr
  intro a ha
  obtain ⟨record, rfl⟩ := h a ha
  rfl

private theorem Activity.introductions_apartFromChunks (trail : List Activity) :
    introductions (apartFromChunks trail) = introductions trail :=
  filterMap_apartFromChunks (fun _ => rfl) trail

structure Roster where
  settings : Settings
  account : String
  poolIndex : Nat
  miners : List Miner
  queue : List Miner
  accepting : Bool

namespace Uplink

/-- A step of an uplink: the uplink after it and what it did. A line that fails leaves the uplink
as it is. -/
def step (u : Uplink) : Step → Uplink × List Activity
  | .attach miner => ((u.attach miner).2, [])
  | .connect link => (u.attachLink link, [])
  | .setup => (u.writeSetup.uplink, u.writeSetup.trail)
  | .consume => (u.consume.uplink, u.consume.trail)
  | .start dial => ((u.start dial).uplink, (u.start dial).trail)
  | .handshake link => ((u.handshake link).uplink, (u.handshake link).trail)
  | .line bytes => ((u.onLine bytes).1.toOption.getD u, (u.onLine bytes).2.map .logged)
  | .write request => ((u.write request).uplink, (u.write request).trail)
  | .close => (u.close, [])
  | .stop => (u.stop, [])
  | .run => (u.run.uplink, u.run.trail)
  | .turnAway => u.turnAway

def after (u : Uplink) (steps : List Step) : Uplink :=
  steps.foldl (fun v s => (v.step s).1) u

/-- Each of the steps with the uplink as it is before it. -/
def moments (u : Uplink) : List Step → List (Uplink × Step)
  | [] => []
  | s :: rest => (u, s) :: (u.step s).1.moments rest

theorem after_append (u : Uplink) (steps : List Step) (s : Step) :
    u.after (steps ++ [s]) = ((u.after steps).step s).1 := by
  simp only [after, List.foldl_append, List.foldl_cons, List.foldl_nil]

theorem moments_append (u : Uplink) (steps : List Step) (s : Step) :
    u.moments (steps ++ [s]) = u.moments steps ++ [(u.after steps, s)] := by
  induction steps generalizing u with
  | nil => rfl
  | cons t rest ih => exact congrArg ((u, t) :: ·) (ih (u.step t).1)

theorem exists_after_of_mem {u v : Uplink} {s : Step} {steps : List Step}
    (h : (v, s) ∈ u.moments steps) : ∃ before, v = u.after before := by
  induction steps generalizing u with
  | nil => cases h
  | cons t rest ih =>
    rcases List.mem_cons.mp h with h | h
    · exact ⟨[], congrArg Prod.fst h⟩
    · obtain ⟨before, hv⟩ := ih h
      exact ⟨t :: before, hv⟩

def roster (u : Uplink) : Roster :=
  ⟨u.settings, u.account, u.poolIndex, u.miners, u.queue, u.accepting⟩

theorem create_roster {settings : Settings} {account : String} {index : Nat} {u : Uplink}
    (created : create settings account index = .ok u) :
    u.roster = ⟨settings, account, index, [], [], true⟩ := by
  obtain ⟨pool, rfl⟩ := eq_of_create created
  rfl

/-- What has nothing to do with miners: neither the change of the uplink nor what it did. -/
structure Aside (u v : Uplink) (trail : List Activity) : Prop where
  roster : v.roster = u.roster
  silent : Activity.introductions trail = []

private theorem Aside.refl (u : Uplink) : Aside u u [] := ⟨rfl, rfl⟩

private theorem Aside.trans {u v w : Uplink} {before after : List Activity} (h : Aside u v before)
    (h' : Aside v w after) : Aside u w (before ++ after) := by
  refine ⟨h'.roster.trans h.roster, ?_⟩
  rw [Activity.introductions_append, h.silent, h'.silent, List.append_nil]

private theorem Aside.logging {u v : Uplink} {trail : List Activity} (h : Aside u v trail)
    (records : List Log.Record) : Aside u v (trail ++ records.map .logged) := by
  refine h.trans ⟨rfl, Activity.introductions_of_logged ?_⟩
  intro a ha
  obtain ⟨record, -, rfl⟩ := List.mem_map.mp ha
  exact ⟨record, rfl⟩

private theorem onItem_aside {u v : Uplink} {item : Item} {done : List Activity}
    (h : u.onItem item = (.ok v, done)) : Aside u v done := by
  have hdone := Activity.introductions_of_logged (onItem_logged u item)
  rw [h] at hdone
  refine ⟨?_, hdone⟩
  obtain ⟨n, -, rfl⟩ := heed_of_onItem (congrArg Prod.fst h)
  rw [heed_eq]
  rfl

private theorem onItem_error_silent {u : Uplink} {item : Item} {fault : Fault}
    {done : List Activity}
    (h : u.onItem item = (.error fault, done)) : Activity.introductions done = [] := by
  have hdone := Activity.introductions_of_logged (onItem_logged u item)
  rw [h] at hdone
  exact hdone

private theorem follow_aside (u : Uplink) (us : List (Reading Item)) :
    Aside u (u.follow us).uplink (u.follow us).trail := by
  induction us generalizing u with
  | nil =>
    rw [follow.eq_def]
    split <;> exact Aside.refl u
  | cons x us ih =>
    rw [follow.eq_def]
    split
    · cases x with
      | waiting => exact Aside.refl u
      | failed fault => exact Aside.refl u
      | got item =>
        dsimp only
        split
        · rename_i fault done hi
          exact ⟨rfl, onItem_error_silent hi⟩
        · rename_i v done hi
          exact (onItem_aside hi).trans (ih v)
    · exact Aside.refl u

private theorem consume_aside (u : Uplink) : Aside u u.consume.uplink u.consume.trail := by
  unfold consume
  split
  · rename_i link _
    have reads := consumeFrom_readsAs [] u link
    have follows := follow_aside u.unlinked (Item.units link.inbound)
    obtain ⟨inbound, hc⟩ := reads.carrier
    constructor
    · rw [eq_of_unlinked reads.uplink hc]
      exact follows.roster
    · rw [← Activity.introductions_apartFromChunks, reads.trail]
      exact follows.silent
  · exact Aside.refl u

theorem write_carrier (u : Uplink) (request : Rpc.Message) :
    (∃ carrier, (u.write request).uplink = { u with carrier }) ∧
      Activity.introductions (u.write request).trail = [] := by
  unfold write
  split
  · split <;> exact ⟨⟨_, rfl⟩, rfl⟩
  · exact ⟨⟨_, rfl⟩, rfl⟩

theorem writeAll_carrier (u : Uplink) (requests : List Rpc.Message) :
    (∃ carrier, (u.writeAll requests).uplink = { u with carrier }) ∧
      Activity.introductions (u.writeAll requests).trail = [] := by
  induction requests generalizing u with
  | nil => exact ⟨⟨_, rfl⟩, rfl⟩
  | cons request rest ih =>
    obtain ⟨⟨carrier, hu⟩, hs⟩ := write_carrier u request
    obtain ⟨⟨carrier', hu'⟩, hs'⟩ := ih (u.write request).uplink
    rw [writeAll]
    dsimp only
    split
    · exact ⟨⟨carrier, hu⟩, hs⟩
    · refine ⟨⟨carrier', ?_⟩, ?_⟩
      · rw [hu', hu]
      · rw [Activity.introductions_append, hs, hs', List.append_nil]

private theorem writeAll_aside (u : Uplink) (requests : List Rpc.Message) :
    Aside u (u.writeAll requests).uplink (u.writeAll requests).trail := by
  obtain ⟨⟨carrier, hu⟩, hs⟩ := writeAll_carrier u requests
  refine ⟨?_, hs⟩
  rw [hu]
  rfl

private theorem write_aside (u : Uplink) (request : Rpc.Message) :
    Aside u (u.write request).uplink (u.write request).trail := by
  obtain ⟨⟨carrier, hu⟩, hs⟩ := write_carrier u request
  refine ⟨?_, hs⟩
  rw [hu]
  rfl

private theorem exchange_aside (u : Uplink) : Aside u u.exchange.uplink u.exchange.trail := by
  have sends : Aside u u.writeSetup.uplink u.writeSetup.trail := writeAll_aside u _
  unfold exchange
  dsimp only
  split
  · exact sends.logging [_]
  · exact sends.trans (consume_aside _)

private theorem settle_aside (u : Uplink) : Aside u u.settle.uplink u.settle.trail := by
  have exchanges := exchange_aside u
  unfold settle
  dsimp only
  split
  · exact ⟨exchanges.roster, exchanges.silent⟩
  · exact ⟨exchanges.roster, (exchanges.logging [_]).silent⟩

private theorem handshake_aside (u : Uplink) (link : Link) :
    Aside u (u.handshake link).uplink (u.handshake link).trail := by
  have settles := settle_aside (u.attachLink link)
  exact ⟨settles.roster, settles.silent⟩

private theorem start_aside (u : Uplink) (dial : Dial) :
    Aside u (u.start dial).uplink (u.start dial).trail := by
  unfold start
  dsimp only
  split
  · exact ⟨rfl, rfl⟩
  · rename_i link _
    have shakes := handshake_aside u link
    generalize u.handshake link = shaken at shakes ⊢
    exact ⟨shakes.roster, shakes.silent⟩

private theorem line_aside (u : Uplink) (bytes : List UInt8) :
    Aside u ((u.onLine bytes).1.toOption.getD u) ((u.onLine bytes).2.map .logged) := by
  -- reading the line as an item only logs it besides
  have hi : u.onItem (.line bytes) = ((u.onLine bytes).1,
    (Link.received bytes :: (u.onLine bytes).2).map .logged) := rfl
  refine ⟨?_, ((Aside.refl u).logging (u.onLine bytes).2).silent⟩
  cases hv : (u.onLine bytes).1 with
  | error fault => rfl
  | ok v =>
    rw [hv] at hi
    exact (onItem_aside hi).roster

theorem step_aside (u : Uplink) {s : Step} (h : s.handlesMiners = false) :
    Aside u (u.step s).1 (u.step s).2 := by
  cases s with
  | attach miner => cases h
  | run => cases h
  | turnAway => cases h
  | connect link => exact ⟨rfl, rfl⟩
  | setup => exact writeAll_aside u _
  | consume => exact consume_aside u
  | start dial => exact start_aside u dial
  | handshake link =>
    dsimp only [step]
    exact handshake_aside u link
  | line bytes => exact line_aside u bytes
  | write request => exact write_aside u request
  | close => exact ⟨rfl, rfl⟩
  | stop => exact ⟨rfl, rfl⟩

end Uplink

end PoolUplink
