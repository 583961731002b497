import PoolUplink.Proofs.Uplink.Fatal
import PoolUplink.Proofs.Uplink.Follow

/-!
# When a handshake is complete

Following units to the end of a handshake: which units complete it, what they make of the uplink,
that nothing behind them counts, and what is answered when it ends either way.
-/

set_option autoImplicit false
set_option relaxedAutoImplicit false

namespace PoolUplink

open PoolUplink.Rpc.Setup (Exchange)
open PoolUplink.Wire (Item Reading)

def Notice.ofUnits (us : List (Reading Item)) : List Notice :=
  us.filterMap fun
    | .got item => (Notice.ofItem item).toOption
    | _ => none

theorem Notice.ofUnits_cons {item : Item} {n : Notice} (h : Notice.ofItem item = .ok n)
    (us : List (Reading Item)) : Notice.ofUnits (.got item :: us) = n :: Notice.ofUnits us := by
  simp only [ofUnits, List.filterMap_cons, h]
  rfl

theorem exists_notice {x : Reading Item} (h : ¬ Fatal x) :
    ∃ item n, x = .got item ∧ Notice.ofItem item = .ok n := by
  cases x with
  | failed fault => exact absurd (Fatal.failed fault) h
  | waiting => exact absurd Fatal.waiting h
  | got item =>
    rw [fatal_iff item] at h
    cases hn : Notice.ofItem item with
    | error fault => exact absurd ⟨fault, hn⟩ h
    | ok n => exact ⟨item, n, rfl, hn⟩

theorem not_fatal_of_ok {item : Item} {n : Notice} (h : Notice.ofItem item = .ok n) :
    ¬ Fatal (.got item) := by
  rw [fatal_iff item]
  rintro ⟨fault, hf⟩
  rw [h] at hf
  cases hf

/-- An exchange is answered among units before any that is fatal. -/
def Heard (e : Exchange) (us : List (Reading Item)) : Prop :=
  ∃ k, (∀ x ∈ us.take k, ¬ Fatal x) ∧ ∃ x ∈ us.take k, Answers e x

private theorem not_heard_of_fatal {x : Reading Item} (h : Fatal x) (e : Exchange)
    (us : List (Reading Item)) : ¬ Heard e (x :: us) := by
  rintro ⟨k, hk, y, hy, -⟩
  cases k with
  | zero => cases hy
  | succ k => exact hk x List.mem_cons_self h

private theorem heard_cons {item : Item} {n : Notice} (h : Notice.ofItem item = .ok n)
    (e : Exchange) (us : List (Reading Item)) :
    Heard e (.got item :: us) ↔ n.answer? = some e ∨ Heard e us := by
  rw [← answers_iff h e]
  constructor
  · rintro ⟨k, hk, x, hx, ha⟩
    cases k with
    | zero => cases hx
    | succ k =>
      rcases List.mem_cons.mp hx with rfl | hx
      · exact Or.inl ha
      · exact Or.inr ⟨k, fun y hy => hk y (List.mem_cons_of_mem _ hy), x, hx, ha⟩
  · rintro (ha | ⟨k, hk, x, hx, ha⟩)
    · refine ⟨1, ?_, _, List.mem_cons_self, ha⟩
      intro x hx
      obtain rfl := List.mem_singleton.mp hx
      exact not_fatal_of_ok h
    · refine ⟨k + 1, ?_, x, List.mem_cons_of_mem _ hx, ha⟩
      intro y hy
      rcases List.mem_cons.mp hy with rfl | hy
      · exact not_fatal_of_ok h
      · exact hk y hy

namespace Uplink

theorem onItem_of_ok {item : Item} {n : Notice} (h : Notice.ofItem item = .ok n) (u : Uplink) :
    u.onItem item = (.ok (u.heed n), (u.onItem item).2) := by
  refine Prod.ext ?_ rfl
  rw [onItem_fst, h]
  rfl

theorem onItem_of_error {item : Item} {fault : Fault} (h : Notice.ofItem item = .error fault)
    (u : Uplink) : u.onItem item = (.error fault, (u.onItem item).2) := by
  refine Prod.ext ?_ rfl
  rw [onItem_fst, h]
  rfl

/-- Units that complete the handshake of an uplink: none is fatal, the uplink is subscribed, and
no exchange is left without an answer. -/
structure Completes (u : Uplink) (us : List (Reading Item)) : Prop where
  sound : ∀ x ∈ us, ¬ Fatal x
  subscribed : u.phase ≠ .connected ∨ ∃ x ∈ us, Answers .subscribe x
  answered : ∀ e, u.answered.has e = true ∨ ∃ x ∈ us, Answers e x

theorem Pending.not_completes_nil {u : Uplink} (h : u.Pending) : ¬ u.Completes [] := by
  rintro ⟨-, hs, ha⟩
  have hp : u.phase ≠ .connected := by simpa using hs
  have hc : u.answered.complete = true := by
    rw [Answered.complete_iff]
    simpa using ha
  rcases h with h | ⟨-, h⟩
  · exact hp h
  · rw [hc] at h
    cases h

private theorem heed_connected_iff {u : Uplink} (h : u.Pending) (n : Notice) :
    (u.heed n).phase = .connected ↔ u.phase = .connected ∧ n.answer? ≠ some .subscribe := by
  have hs : u.phase = .connected ↔ u.phase ≠ .subscribed := by
    rcases h with h | ⟨h, -⟩ <;> rw [h] <;> decide
  rw [heed_phase h, hs, ← not_or]
  split
  · rename_i hor
    constructor
    · split <;> intro hp <;> cases hp
    · intro hn
      exact absurd hor hn
  · rename_i hor
    exact ⟨fun _ => hor, fun _ => rfl⟩

theorem completes_cons {u : Uplink} (h : u.Pending) {item : Item} {n : Notice}
    (hn : Notice.ofItem item = .ok n) (us : List (Reading Item)) :
    u.Completes (.got item :: us) ↔ (u.heed n).Completes us := by
  have hphase : (u.heed n).phase ≠ .connected ↔
      u.phase ≠ .connected ∨ n.answer? = some .subscribe := by
    rw [Ne, heed_connected_iff h]
    tauto
  constructor
  · rintro ⟨hf, hs, ha⟩
    refine ⟨fun x hx => hf x (List.mem_cons_of_mem _ hx), ?_, ?_⟩
    · rw [hphase, ← answers_iff hn]
      simpa [or_assoc] using hs
    · intro e
      rw [heed_answered, ← answers_iff hn]
      simpa [or_assoc] using ha e
  · rintro ⟨hf, hs, ha⟩
    rw [hphase, ← answers_iff hn] at hs
    refine ⟨?_, by simpa [or_assoc] using hs, ?_⟩
    · intro x hx
      rcases List.mem_cons.mp hx with rfl | hx
      · exact not_fatal_of_ok hn
      · exact hf x hx
    · intro e
      have he := ha e
      rw [heed_answered, ← answers_iff hn] at he
      simpa [or_assoc] using he

theorem heed_completes_nil {u : Uplink} (h : u.Pending) {n : Notice}
    (ha : (u.heed n).phase = .authorized) : (u.heed n).Completes [] := by
  have hc : (u.heed n).answered.complete = true := by
    rw [heed_phase h] at ha
    split at ha
    · split at ha
      · assumption
      · cases ha
    · cases ha
  rw [Answered.complete_iff] at hc
  refine ⟨fun x hx => absurd hx List.not_mem_nil, Or.inl ?_, fun e => Or.inl (hc e)⟩
  rw [ha]
  decide

theorem follow_of_authorized {u : Uplink} (h : u.phase = .authorized)
    (us : List (Reading Item)) : u.follow us = ⟨.got (), u, []⟩ := by
  rw [follow.eq_def, h]
  rfl

theorem follow_of_completes {u : Uplink} (h : u.Pending) {us : List (Reading Item)} {k : Nat}
    (hk : u.Completes (us.take k)) :
    (u.follow us).result = .got () ∧ (u.follow us).uplink.phase = .authorized := by
  induction us generalizing u k with
  | nil =>
    rw [List.take_nil] at hk
    exact absurd hk h.not_completes_nil
  | cons x us ih =>
    cases k with
    | zero => exact absurd hk h.not_completes_nil
    | succ k =>
      rw [List.take_succ_cons] at hk
      obtain ⟨item, n, rfl, hn⟩ := exists_notice (hk.sound x List.mem_cons_self)
      -- the rest completes the uplink that has heeded the first unit
      rw [completes_cons h hn] at hk
      rw [follow_of_ok h.inHandshake (onItem_of_ok hn u)]
      rcases heed_pending h n with ha | hp
      · rw [follow_of_authorized ha]
        exact ⟨rfl, ha⟩
      · exact ih hp hk

theorem completes_of_follow {u : Uplink} (h : u.Pending) {us : List (Reading Item)}
    (hr : (u.follow us).result = .got ()) :
    ∃ k, u.Completes (us.take k) ∧
      (u.follow us).uplink = u.heedAll (Notice.ofUnits (us.take k)) := by
  induction us generalizing u with
  | nil =>
    rw [follow, if_pos h.inHandshake] at hr
    cases hr
  | cons x us ih =>
    cases x with
    | waiting =>
      rw [follow, if_pos h.inHandshake] at hr
      split at hr <;> cases hr
    | failed fault =>
      rw [follow, if_pos h.inHandshake] at hr
      cases hr
    | got item =>
      cases hn : Notice.ofItem item with
      | error fault =>
        rw [follow_of_error h.inHandshake (onItem_of_error hn u)] at hr
        cases hr
      | ok n =>
        rw [follow_of_ok h.inHandshake (onItem_of_ok hn u)] at hr ⊢
        rcases heed_pending h n with ha | hp
        · refine ⟨1, ?_, ?_⟩
          · exact (completes_cons h hn []).mpr (heed_completes_nil h ha)
          · rw [follow_of_authorized ha, List.take_succ_cons, Notice.ofUnits_cons hn]
            rfl
        · obtain ⟨k, hk, hu⟩ := ih hp hr
          refine ⟨k + 1, ?_, ?_⟩
          · exact (completes_cons h hn _).mpr hk
          · rw [List.take_succ_cons, Notice.ofUnits_cons hn]
            exact hu

/-- Units with which the handshake of an uplink is over, in success or failure. -/
def Decided (u : Uplink) (us : List (Reading Item)) : Prop :=
  (∃ x ∈ us, Fatal x) ∨ u.Completes us

/-- What comes behind the units that decide a handshake has no effect. -/
theorem follow_congr {u : Uplink} (h : u.Pending) {us vs : List (Reading Item)} {k : Nat}
    (hd : u.Decided (us.take k)) (hs : vs.take k = us.take k) : u.follow vs = u.follow us := by
  induction us generalizing u vs k with
  | nil =>
    rw [List.take_nil] at hd
    rcases hd with ⟨x, hx, -⟩ | hc
    · cases hx
    · exact absurd hc h.not_completes_nil
  | cons x us ih =>
    cases k with
    | zero =>
      rcases hd with ⟨x, hx, -⟩ | hc
      · cases hx
      · exact absurd hc h.not_completes_nil
    | succ k =>
      cases vs with
      | nil => cases hs
      | cons y vs =>
        obtain ⟨rfl, ht⟩ := List.cons_eq_cons.mp hs
        cases y with
        | waiting => rw [follow, follow]
        | failed fault => rw [follow, follow]
        | got item =>
          cases hn : Notice.ofItem item with
          | error fault =>
            rw [follow_of_error h.inHandshake (onItem_of_error hn u),
              follow_of_error h.inHandshake (onItem_of_error hn u)]
          | ok n =>
            rw [follow_of_ok h.inHandshake (onItem_of_ok hn u),
              follow_of_ok h.inHandshake (onItem_of_ok hn u)]
            rcases heed_pending h n with ha | hp
            · -- the streams may differ from here on: neither is read any further
              rw [follow_of_authorized ha, follow_of_authorized ha]
            · have hd' : (u.heed n).Decided (us.take k) := by
                rcases hd with ⟨z, hz, hf⟩ | hc
                · rcases List.mem_cons.mp hz with rfl | hz
                  · exact absurd hf (not_fatal_of_ok hn)
                  · exact Or.inl ⟨z, hz, hf⟩
                · exact Or.inr ((completes_cons h hn _).mp hc)
              rw [ih hp hd' ht]

theorem follow_answered {u : Uplink} (h : u.Pending) (us : List (Reading Item)) (e : Exchange) :
    (u.follow us).uplink.answered.has e = true ↔ u.answered.has e = true ∨ Heard e us := by
  have unheard {v : Uplink} {vs : List (Reading Item)} (hn : ¬ Heard e vs)
      (hv : (v.follow vs).uplink = v) :
      (v.follow vs).uplink.answered.has e = true ↔ v.answered.has e = true ∨ Heard e vs := by
    rw [hv]
    simp [hn]
  induction us generalizing u with
  | nil =>
    apply unheard
    · rintro ⟨k, -, x, hx, -⟩
      rw [List.take_nil] at hx
      cases hx
    · rw [follow, if_pos h.inHandshake]
  | cons x us ih =>
    cases x with
    | waiting =>
      apply unheard (not_heard_of_fatal Fatal.waiting e us)
      rw [follow, if_pos h.inHandshake]
    | failed fault =>
      apply unheard (not_heard_of_fatal (Fatal.failed fault) e us)
      rw [follow, if_pos h.inHandshake]
    | got item =>
      cases hn : Notice.ofItem item with
      | error fault =>
        apply unheard (not_heard_of_fatal ((fatal_iff item).mpr ⟨fault, hn⟩) e us)
        rw [follow_of_error h.inHandshake (onItem_of_error hn u)]
      | ok n =>
        rw [follow_of_ok h.inHandshake (onItem_of_ok hn u), heard_cons hn, ← or_assoc,
          ← heed_answered]
        rcases heed_pending h n with ha | hp
        · -- nothing more is read, but nothing is left to be answered either
          have he : (u.heed n).answered.has e = true := by
            simpa using (heed_completes_nil h ha).answered e
          rw [follow_of_authorized ha]
          exact ⟨Or.inl, fun _ => he⟩
        · exact ih hp

end Uplink

end PoolUplink
