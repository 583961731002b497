import PoolUplink.Proofs.Uplink.Knowledge

/-!
# The last word of a pool

A handshake handles the units of its stream that come before anything fatal, and none behind the
answer that completes it. What a new uplink then has of its pool is what the last messages of
their kinds among these units say: the session id and the width are those of one subscription.
-/

set_option autoImplicit false
set_option relaxedAutoImplicit false

namespace PoolUplink

open PoolUplink.Json (Value)
open PoolUplink.Rpc (Message)
open PoolUplink.Rpc.Setup (Exchange)
open PoolUplink.Wire (Item Reading Outbound Packet)

def responseTo? (e : Exchange) : Reading Item → Option (Option Value × Option Value)
  | .got (.line bytes) =>
    match Message.ofLine bytes with
    | .ok (.response id result error) =>
      if id = some (.string e.id) then some (result, error) else none
    | _ => none
  | _ => none

def grantIn? (x : Reading Item) : Option Subscription :=
  (responseTo? .subscribe x).bind fun (result, error) =>
    (Subscription.ofResult result error).toOption

def featuresIn? (x : Reading Item) : Option Features :=
  (responseTo? .features x).map fun (result, _) => (Features.ofResult result).1

def maskIn? : Reading Item → Option UInt32
  | .got (.line bytes) =>
    match Message.ofLine bytes with
    | .ok (.request _ method params) =>
      if method = "mining.set_version_mask" then VersionMask.ofParams? params else none
    | _ => none
  | _ => none

/-- The front of the units of a stream that a new uplink handles: none is fatal, no shorter front
answers all exchanges, and it ends because it does or because what follows is fatal. -/
structure Handled (us front : List (Reading Item)) : Prop where
  sound : ∀ x ∈ front, ¬ Fatal x
  needed : ∀ before x after, front = before ++ x :: after → ∃ e, ∀ y ∈ before, ¬ Answers e y
  ending : ∃ rest, us = front ++ rest ∧
    ((∀ e, ∃ x ∈ front, Answers e x) ∨ ∃ x later, rest = x :: later ∧ Fatal x)

section Notices

private theorem ofItem_of_response {e : Exchange} {item : Item} {result error : Option Value}
    (h : responseTo? e (.got item) = some (result, error)) :
    Notice.ofItem item = Notice.ofExchange e result error := by
  cases item with
  | frame header => cases h
  | line bytes =>
    simp only [responseTo?] at h
    split at h
    · rename_i id result' error' hm
      split at h
      · rename_i hid
        cases h
        exact Notice.ofItem_response (hid ▸ hm)
      · cases h
    · cases h

private theorem not_answers_of_no_response {e : Exchange} {x : Reading Item}
    (h : responseTo? e x = none) : ¬ Answers e x := by
  rintro ⟨bytes, result, error, rfl, hm⟩
  simp [responseTo?, hm] at h

private theorem grant?_ofItem (item : Item) :
    (Notice.ofItem item).toOption.bind Notice.grant? = grantIn? (.got item) := by
  unfold grantIn?
  cases hr : responseTo? .subscribe (.got item) with
  | some response =>
    obtain ⟨result, error⟩ := response
    rw [ofItem_of_response hr, Notice.ofExchange]
    dsimp only [Option.bind_some]
    cases Subscription.ofResult result error <;> rfl
  | none =>
    cases hn : Notice.ofItem item with
    | error fault => rfl
    | ok n =>
      have hanswer : n.answer? ≠ some .subscribe :=
        mt (answers_iff hn .subscribe).mpr (not_answers_of_no_response hr)
      cases n with
      | granted s => exact absurd rfl hanswer
      | _ => rfl

private theorem features?_ofItem (item : Item) :
    (Notice.ofItem item).toOption.bind Notice.features? = featuresIn? (.got item) := by
  unfold featuresIn?
  cases hr : responseTo? .features (.got item) with
  | some response =>
    obtain ⟨result, error⟩ := response
    rw [ofItem_of_response hr, Notice.ofExchange]
    rfl
  | none =>
    cases hn : Notice.ofItem item with
    | error fault => rfl
    | ok n =>
      have hanswer : n.answer? ≠ some .features :=
        mt (answers_iff hn .features).mpr (not_answers_of_no_response hr)
      cases n with
      | featured features => exact absurd rfl hanswer
      | _ => rfl

private theorem mask?_of_response {id result error : Option Value} {n : Notice}
    (h : Notice.ofMessage (.response id result error) = .ok n) : n.mask? = none := by
  simp only [Notice.ofMessage] at h
  split at h
  · have answered := Notice.answer?_of_ofExchange h
    cases n with
    | masked mask => cases answered
    | _ => rfl
  · cases h
    rfl

private theorem mask?_ofItem (item : Item) :
    (Notice.ofItem item).toOption.bind Notice.mask? = maskIn? (.got item) := by
  cases item with
  | frame header => rfl
  | line bytes =>
    simp only [Notice.ofItem, maskIn?]
    cases Message.ofLine bytes with
    | error fault => rfl
    | ok m =>
      cases m with
      | request id method params =>
        simp only [Notice.ofMessage, Notice.ofRequest]
        split
        · cases VersionMask.ofParams? params <;> rfl
        · rfl
      | response id result error =>
        dsimp only
        cases hn : Notice.ofMessage (.response id result error) with
        | error fault => rfl
        | ok n => exact mask?_of_response hn

private theorem filterMap_ofUnits {β : Type} {p : Notice → Option β} {q : Reading Item → Option β}
    (got : ∀ item, (Notice.ofItem item).toOption.bind p = q (.got item))
    (failed : ∀ fault, q (.failed fault) = none) (waiting : q .waiting = none)
    (us : List (Reading Item)) : (Notice.ofUnits us).filterMap p = us.filterMap q := by
  rw [Notice.ofUnits, List.filterMap_filterMap]
  congr 1
  funext x
  cases x with
  | got item => exact got item
  | failed fault => exact (failed fault).symm
  | waiting => exact waiting.symm

end Notices

theorem Wire.Item.exists_fatal (s : Wire.Inbound) : ∃ x ∈ units s, Fatal x := by
  refine ⟨_, List.mem_append_right _ (List.mem_singleton.mpr rfl), ?_⟩
  cases (readAll s).2 with
  | none => exact .waiting
  | some fault => exact .failed fault

namespace Uplink

structure Handles (u : Uplink) (us front : List (Reading Item)) : Prop where
  sound : ∀ x ∈ front, ¬ Fatal x
  needed : ∀ before x after, front = before ++ x :: after → ¬ u.Completes before
  ending : ∃ rest, us = front ++ rest ∧
    (u.Completes front ∨ ∃ x later, rest = x :: later ∧ Fatal x)

private theorem handles_iff_of_nothing {u : Uplink} (ha : u.answered = .nothing)
    (us front : List (Reading Item)) : u.Handles us front ↔ Handled us front := by
  have complete {before : List (Reading Item)} (sound : ∀ x ∈ before, ¬ Fatal x) :
      u.Completes before ↔ ∀ e, ∃ x ∈ before, Answers e x := by
    rw [completes_iff_of_nothing ha, and_iff_right sound]
  have needed (sound : ∀ x ∈ front, ¬ Fatal x) :
      (∀ before x after, front = before ++ x :: after → ¬ u.Completes before) ↔
        ∀ before x after, front = before ++ x :: after → ∃ e, ∀ y ∈ before, ¬ Answers e y := by
    refine forall_congr' fun before => forall_congr' fun x => forall_congr' fun after =>
      forall_congr' fun hfront => ?_
    rw [complete fun y hy => sound y (hfront ▸ List.mem_append_left _ hy)]
    simp only [not_forall, not_exists, not_and]
  constructor
  · rintro ⟨sound, hneeded, rest, hrest, hend⟩
    exact ⟨sound, (needed sound).mp hneeded, rest, hrest, hend.imp_left (complete sound).mp⟩
  · rintro ⟨sound, hneeded, rest, hrest, hend⟩
    exact ⟨sound, (needed sound).mpr hneeded, rest, hrest, hend.imp_left (complete sound).mpr⟩

private theorem told_of_fatal {x : Reading Item} (h : Fatal x) (u : Uplink)
    (us : List (Reading Item)) : u.told (x :: us) = [] := by
  cases x with
  | waiting => rfl
  | failed fault => rfl
  | got item =>
    obtain ⟨fault, hn⟩ := (fatal_iff item).mp h
    simp only [told, hn]

private theorem told_of_authorized {u : Uplink} (h : u.phase = .authorized)
    (us : List (Reading Item)) : u.told us = [] := by
  cases us with
  | nil => rfl
  | cons x us =>
    cases x with
    | waiting => rfl
    | failed fault => rfl
    | got item =>
      cases hn : Notice.ofItem item <;> simp [told, hn, h, Phase.inHandshake]

private theorem told_cons {u : Uplink} (h : u.Pending) {item : Item} {n : Notice}
    (hn : Notice.ofItem item = .ok n) (us : List (Reading Item)) :
    u.told (.got item :: us) = n :: (u.heed n).told us := by
  simp only [told, hn, if_pos h.inHandshake]

private theorem told_of_handles {u : Uplink} (h : u.Pending) {us front : List (Reading Item)}
    (handles : u.Handles us front) : u.told us = Notice.ofUnits front := by
  induction front generalizing u us with
  | nil =>
    obtain ⟨rest, rfl, hc | ⟨x, later, rfl, hx⟩⟩ := handles.ending
    · exact absurd hc h.not_completes_nil
    · exact told_of_fatal hx u later
  | cons x front ih =>
    obtain ⟨item, n, rfl, hn⟩ := exists_notice (handles.sound x List.mem_cons_self)
    obtain ⟨rest, rfl, hend⟩ := handles.ending
    rw [List.cons_append, told_cons h hn, Notice.ofUnits_cons hn]
    congr 1
    rcases heed_pending h n with ha | hp
    · -- the first unit completes the handshake, so that it is the only one handled
      have hfirst : u.Completes [.got item] :=
        (completes_cons h hn []).mpr (heed_completes_nil h ha)
      rw [told_of_authorized ha]
      cases front with
      | nil => rfl
      | cons y front => exact absurd hfirst (handles.needed [.got item] y front rfl)
    · refine ih hp ⟨?_, ?_, rest, rfl, ?_⟩
      · exact fun y hy => handles.sound y (List.mem_cons_of_mem _ hy)
      · intro before y after hfront hc
        refine handles.needed (.got item :: before) y after ?_ ((completes_cons h hn before).mpr hc)
        rw [hfront, List.cons_append]
      · exact hend.imp_left (completes_cons h hn front).mp

private theorem handles_nil {x : Reading Item} (hx : Fatal x) (u : Uplink)
    (us : List (Reading Item)) : u.Handles (x :: us) [] := by
  refine ⟨fun y hy => absurd hy List.not_mem_nil, ?_, x :: us, rfl, Or.inr ⟨x, us, rfl, hx⟩⟩
  intro before y after hfront
  have hlength := congrArg List.length hfront
  simp at hlength

private theorem handles_singleton {u : Uplink} (h : u.Pending) {item : Item} {n : Notice}
    (hn : Notice.ofItem item = .ok n) (ha : (u.heed n).phase = .authorized)
    (us : List (Reading Item)) : u.Handles (.got item :: us) [.got item] := by
  have complete : u.Completes [.got item] :=
    (completes_cons h hn []).mpr (heed_completes_nil h ha)
  refine ⟨complete.sound, ?_, us, rfl, Or.inl complete⟩
  intro before y after hfront
  cases before with
  | nil => exact h.not_completes_nil
  | cons z before =>
    have hlength := congrArg List.length hfront
    simp at hlength

private theorem Handles.cons {u : Uplink} (h : u.Pending) {item : Item} {n : Notice}
    (hn : Notice.ofItem item = .ok n) {us front : List (Reading Item)}
    (handles : (u.heed n).Handles us front) : u.Handles (.got item :: us) (.got item :: front) := by
  obtain ⟨rest, rfl, hend⟩ := handles.ending
  refine ⟨?_, ?_, rest, rfl, hend.imp_left (completes_cons h hn front).mpr⟩
  · intro y hy
    rcases List.mem_cons.mp hy with rfl | hy
    · exact not_fatal_of_ok hn
    · exact handles.sound y hy
  · intro before y after hfront
    cases before with
    | nil => exact h.not_completes_nil
    | cons z before =>
      obtain ⟨rfl, htail⟩ := List.cons_eq_cons.mp hfront
      rw [completes_cons h hn]
      exact handles.needed before y after htail

theorem exists_handles {u : Uplink} (h : u.Pending) {us : List (Reading Item)}
    (hf : ∃ x ∈ us, Fatal x) : ∃ front, u.Handles us front := by
  induction us generalizing u with
  | nil =>
    obtain ⟨x, hx, -⟩ := hf
    cases hx
  | cons x us ih =>
    by_cases hx : Fatal x
    · exact ⟨[], handles_nil hx u us⟩
    · obtain ⟨item, n, rfl, hn⟩ := exists_notice hx
      rcases heed_pending h n with ha | hp
      · exact ⟨_, handles_singleton h hn ha us⟩
      · have hrest : ∃ y ∈ us, Fatal y := by
          obtain ⟨y, hy, hfy⟩ := hf
          rcases List.mem_cons.mp hy with rfl | hy
          · exact absurd hfy hx
          · exact ⟨y, hy, hfy⟩
        obtain ⟨front, handles⟩ := ih hp hrest
        exact ⟨_, handles.cons h hn⟩

private theorem known_of_units {u v : Uplink} (initial : u.knowledge = .initial)
    {us : List (Reading Item)}
    (heeded : v.knowledge = (u.heedAll (Notice.ofUnits us)).knowledge) :
    let granted := (us.filterMap grantIn?).getLast?
    v.sessionId = (granted.map Subscription.sessionId).getD 0 ∧
      v.width = (granted.map Subscription.width).getD 0 ∧
      v.features = (us.filterMap featuresIn?).getLast?.getD .none ∧
      v.versionMask = (us.filterMap maskIn?).getLast?.getD 0 := by
  intro granted
  rw [heedAll_eq, filterMap_ofUnits grant?_ofItem (fun _ => rfl) rfl,
    filterMap_ofUnits features?_ofItem (fun _ => rfl) rfl,
    filterMap_ofUnits mask?_ofItem (fun _ => rfl) rfl] at heeded
  -- where nothing is said, what was there before is left
  have hid : u.sessionId = 0 := congrArg Knowledge.sessionId initial
  have hwidth : u.width = 0 := congrArg Knowledge.width initial
  have hfeatures : u.features = .none := congrArg Knowledge.features initial
  have hmask : u.versionMask = 0 := congrArg Knowledge.versionMask initial
  refine ⟨?_, ?_, ?_, ?_⟩
  · exact (congrArg Knowledge.sessionId heeded).trans (congrArg (Option.getD _) hid)
  · exact (congrArg Knowledge.width heeded).trans (congrArg (Option.getD _) hwidth)
  · exact (congrArg Knowledge.features heeded).trans (congrArg (Option.getD _) hfeatures)
  · exact (congrArg Knowledge.versionMask heeded).trans (congrArg (Option.getD _) hmask)

/-- After the first handshake of an uplink whose requests are written, whatever comes of it, its
session id and width are those of the last subscription granted among the units handled, its
features those of the last response that states them, and its version mask is the last valid one
set. -/
theorem negotiated_by_last {settings : Settings} {account : String} {index : Nat} {u : Uplink}
    (created : create settings account index = .ok u) (link : Link)
    (written : (u.attachLink link).writeSetup.result = .ok ()) :
    (∃ front, Handled (Item.units link.inbound) front) ∧
    ∀ front, Handled (Item.units link.inbound) front →
      let v := (u.handshake link).uplink
      let granted := (front.filterMap grantIn?).getLast?
      v.sessionId = (granted.map Subscription.sessionId).getD 0 ∧
        v.width = (granted.map Subscription.width).getD 0 ∧
        v.features = (front.filterMap featuresIn?).getLast?.getD .none ∧
        v.versionMask = (front.filterMap maskIn?).getLast?.getD 0 := by
  have pending := pending_attachLink u link
  have hiff := handles_iff_of_nothing (u := (u.attachLink link).unlinked)
    (show u.answered = .nothing from create_answered created)
  constructor
  · obtain ⟨front, handles⟩ := exists_handles pending (Item.exists_fatal link.inbound)
    exact ⟨front, (hiff _ _).mp handles⟩
  · intro front handled
    have htold : u.toldOver link = Notice.ofUnits front := by
      rw [toldOver, if_pos written]
      exact told_of_handles pending ((hiff _ _).mpr handled)
    have heeded : (u.handshake link).uplink.knowledge =
        ((u.attachLink link).unlinked.heedAll (Notice.ofUnits front)).knowledge := by
      rw [← htold]
      exact (handshake_heeds u link).1
    have initial : u.knowledge = .initial := create_knowledge created
    exact known_of_units (u := (u.attachLink link).unlinked) initial heeded

def sampleResubscribe : Packet :=
  .line "\x7b\"id\":\"sub\",\"result\":[[],\"11223344\",7.9]\x7d".toUTF8.toList
    (by decide +kernel) (by decide +kernel)

def sampleMask : Packet :=
  .line "\x7b\"method\":\"mining.set_version_mask\",\"params\":[\"0x1fffe000\"]\x7d".toUTF8.toList
    (by decide +kernel) (by decide +kernel)

def sampleStrayMask : Packet :=
  .line "\x7b\"method\":\"mining.set_version_mask\",\"params\":[\"x\"]\x7d".toUTF8.toList
    (by decide +kernel) (by decide +kernel)

/-- A pool that grants two subscriptions, sets a mask that is none after one that is, and goes on
after all exchanges have been answered. -/
def sampleRepetitions : List Packet :=
  [sampleSubscribe, sampleMask, sampleStrayMask, sampleFeatures, sampleConfigure,
    sampleResubscribe, sampleAuthorize, sampleSubscribe]

theorem negotiated_by_last_of_sampleRepetitions :
    ∃ u, create sampleSettings "account" 0 = .ok u ∧
      (u.attachLink (sampleLink sampleRepetitions)).writeSetup.result = .ok () ∧
      ∃ front, Handled (Item.units (sampleLink sampleRepetitions).inbound) front ∧
        ((front.filterMap grantIn?).getLast?.map Subscription.sessionId).getD 0 = 0x11223344 ∧
        ((front.filterMap grantIn?).getLast?.map Subscription.width).getD 0 = 7 ∧
        (front.filterMap maskIn?).getLast?.getD 0 = 0x1fffe000 := by
  obtain ⟨u, created⟩ : ∃ u, create sampleSettings "account" 0 = .ok u := ⟨_, rfl⟩
  have written : (u.attachLink (sampleLink sampleRepetitions)).writeSetup.result = .ok () :=
    (writeSetup_attachLink u _).1.trans (Outbound.writeLines_of_unlimited rfl _)
  obtain ⟨⟨front, handled⟩, hlast⟩ := negotiated_by_last created _ written
  obtain ⟨hid, hwidth, -, hmask⟩ := hlast front handled
  refine ⟨u, created, written, front, handled, ?_⟩
  rw [← hid, ← hwidth, ← hmask]
  cases created
  decide +kernel

end Uplink

end PoolUplink
