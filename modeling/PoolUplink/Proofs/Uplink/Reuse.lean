import PoolUplink.Proofs.Uplink.Conservation

/-!
# Handshakes of a used uplink

A handshake starts from what earlier ones have left: the exchanges answered over an earlier link
stay answered. An uplink that has been used may thus be authorized by a stream that would not
authorize a new one. The main statement says exactly by which streams.
-/

set_option autoImplicit false
set_option relaxedAutoImplicit false

namespace PoolUplink

open PoolUplink.Rpc.Setup (Exchange)
open PoolUplink.Wire (Item Reading)

def Step.link? : Step → Option Link
  | handshake link => some link
  | start (.opened link) => some link
  | _ => none

/-- Whether a step reads what a pool sends without running a handshake. -/
def Step.readsAlone : Step → Bool
  | consume => true
  | line _ => true
  | _ => false

/-- Units start so that the subscription is granted and, with what is answered before, all
exchanges are answered, nothing fatal among them. -/
def Suffices (answered : Exchange → Prop) (us : List (Reading Item)) : Prop :=
  ∃ k, (∀ x ∈ us.take k, ¬ Fatal x) ∧ (∃ x ∈ us.take k, Answers .subscribe x) ∧
    ∀ e, answered e ∨ ∃ x ∈ us.take k, Answers e x

private theorem Suffices.mono {before before' : Exchange → Prop} (h : ∀ e, before e → before' e)
    {us : List (Reading Item)} (hs : Suffices before us) : Suffices before' us := by
  obtain ⟨k, hf, hsub, ha⟩ := hs
  exact ⟨k, hf, hsub, fun e => (ha e).imp_left (h e)⟩

namespace Uplink

/-- An exchange is answered over a link that takes the requests, before anything fatal. -/
def HeardOver (e : Exchange) (u : Uplink) (link : Link) : Prop :=
  (u.attachLink link).writeSetup.result = .ok () ∧ Heard e (Item.units link.inbound)

def HeardAt (e : Exchange) (m : Uplink × Step) : Prop :=
  ∃ link, m.2.link? = some link ∧ HeardOver e m.1 link

private theorem handshake_answered (u : Uplink) (link : Link) (e : Exchange) :
    (u.handshake link).uplink.answered.has e = true ↔
      u.answered.has e = true ∨ HeardOver e u link := by
  by_cases written : (u.attachLink link).writeSetup.result = .ok ()
  · have hf := follow_answered (pending_attachLink u link) (Item.units link.inbound) e
    have ha : (u.handshake link).uplink.answered =
        ((u.attachLink link).unlinked.follow (Item.units link.inbound)).uplink.answered := by
      rw [← withoutUnread_answered, handshake_of_written written]
      dsimp only
      split <;> rfl
    rw [ha, hf, HeardOver, and_iff_right written]
    rfl
  · rw [handshake_of_refused written, HeardOver]
    simp only [written, false_and, or_false]
    rfl

private theorem run_answered (u : Uplink) : u.run.uplink.answered = u.answered := by
  unfold run
  split
  · dsimp only
    rw [(drain_eq { u with accepting := false }).1]
    rfl
  · dsimp only
    rw [(drain_eq u).1]

theorem start_opened (u : Uplink) (link : Link) :
    (u.start (.opened link)).uplink = (u.handshake link).uplink := by
  rw [start, dialed]

theorem step_answered (u : Uplink) {s : Step} (h : s.readsAlone = false) (e : Exchange) :
    (u.step s).1.answered.has e = true ↔ u.answered.has e = true ∨ HeardAt e (u, s) := by
  -- nothing is heard in a step without a handshake, so it has to leave the answers as they are
  have apart (hl : s.link? = none) (ha : (u.step s).1.answered = u.answered) :
      (u.step s).1.answered.has e = true ↔ u.answered.has e = true ∨ HeardAt e (u, s) := by
    have hn : ¬ HeardAt e (u, s) := by
      rintro ⟨link, h, -⟩
      cases hl.symm.trans h
    rw [ha]
    simp [hn]
  have linked {link : Link} (hl : s.link? = some link) : HeardAt e (u, s) ↔ HeardOver e u link := by
    constructor
    · rintro ⟨other, h, hh⟩
      cases hl.symm.trans h
      exact hh
    · exact fun hh => ⟨link, hl, hh⟩
  cases s with
  | consume => cases h
  | line bytes => cases h
  | handshake link =>
    rw [linked rfl]
    dsimp only [step]
    exact handshake_answered u link e
  | start dial =>
    cases dial with
    | opened link =>
      rw [linked rfl]
      dsimp only [step]
      rw [start_opened]
      exact handshake_answered u link e
    | failed reason => exact apart rfl rfl
    | expired => exact apart rfl rfl
  | attach miner =>
    apply apart rfl
    change (u.attach miner).2.answered = u.answered
    rw [attach_uplink]
    split <;> rfl
  | setup =>
    obtain ⟨⟨carrier, hu⟩, -⟩ := writeAll_carrier u
      (Rpc.Setup.all u.settings.userAgent u.account)
    have ha := congrArg answered hu
    exact apart rfl ha
  | write request =>
    obtain ⟨⟨carrier, hu⟩, -⟩ := write_carrier u request
    have ha := congrArg answered hu
    exact apart rfl ha
  | run => exact apart rfl (run_answered u)
  | connect link => exact apart rfl rfl
  | close => exact apart rfl rfl
  | stop => exact apart rfl rfl
  | turnAway => exact apart rfl rfl

private theorem after_answered {settings : Settings} {account : String} {index : Nat} {u : Uplink}
    (created : create settings account index = .ok u) {steps : List Step}
    (whole : ∀ s ∈ steps, s.readsAlone = false) (e : Exchange) :
    (u.after steps).answered.has e = true ↔ ∃ m ∈ u.moments steps, HeardAt e m := by
  induction steps using List.reverseRecOn with
  | nil =>
    have hnothing : u.answered.has e = false := by
      rw [create_answered created]
      cases e <;> rfl
    simp [after, moments, hnothing]
  | append_singleton steps s ih =>
    have hs := step_answered (u.after steps) (whole s (by simp)) e
    have ih := ih fun t ht => whole t (List.mem_append_left _ ht)
    rw [after_append, hs, ih, moments_append]
    simp [or_and_right, exists_or]

private theorem handshake_phase_iff_suffices (u : Uplink) (link : Link) :
    (u.handshake link).uplink.phase = .authorized ↔
      (u.attachLink link).writeSetup.result = .ok () ∧
        Suffices (fun e => u.answered.has e = true) (Item.units link.inbound) := by
  rw [handshake_phase]
  refine and_congr_right fun _ => exists_congr fun k => ?_
  constructor
  · rintro ⟨hf, hs, ha⟩
    exact ⟨hf, hs.resolve_left fun h => h rfl, ha⟩
  · rintro ⟨hf, hs, ha⟩
    exact ⟨hf, Or.inr hs, ha⟩

theorem handshake_phases (u : Uplink) (link : Link) :
    (u.handshake link).uplink.phase = .authorized ∨
      (u.handshake link).uplink.phase = .disconnected := by
  by_cases h : (u.handshake link).uplink.phase = .authorized
  · exact Or.inl h
  · exact Or.inr (handshake_closed h).1

private theorem handshake_phase_eq_iff (u v : Uplink) (link : Link) :
    (u.handshake link).uplink.phase = (v.handshake link).uplink.phase ↔
      ((u.handshake link).uplink.phase = .authorized ↔
        (v.handshake link).uplink.phase = .authorized) := by
  rcases handshake_phases u link with hu | hu <;> rcases handshake_phases v link with hv | hv <;>
    rw [hu, hv] <;> decide

private theorem after_written {u : Uplink} (steps : List Step) (link : Link) :
    ((u.after steps).attachLink link).writeSetup.result =
      (u.attachLink link).writeSetup.result := by
  have h := conserves u steps
  have hl : (u.after steps).setupLines = u.setupLines := by
    rw [setupLines, h.settings, h.account, setupLines]
  rw [(writeSetup_attachLink _ link).1, (writeSetup_attachLink u link).1, hl]

/-- A used uplink is authorized exactly if its requests are written and the stream, with what
earlier handshakes have heard, suffices. So it ends as a new uplink does on the same stream exactly
if, where the requests are written, a stream that suffices with what has been heard suffices
alone. -/
theorem used_as_new_iff {settings : Settings} {account : String} {index : Nat} {u : Uplink}
    (created : create settings account index = .ok u) {steps : List Step}
    (whole : ∀ s ∈ steps, s.readsAlone = false) (link : Link) :
    (((u.after steps).handshake link).uplink.phase = .authorized ↔
      (u.attachLink link).writeSetup.result = .ok () ∧
        Suffices (fun e => ∃ m ∈ u.moments steps, HeardAt e m) (Item.units link.inbound)) ∧
    (((u.after steps).handshake link).uplink.phase = (u.handshake link).uplink.phase ↔
      ((u.attachLink link).writeSetup.result = .ok () →
        Suffices (fun e => ∃ m ∈ u.moments steps, HeardAt e m) (Item.units link.inbound) →
          Suffices (fun _ => False) (Item.units link.inbound))) := by
  have hused := handshake_phase_iff_suffices (u.after steps) link
  have hnew := handshake_phase_iff_suffices u link
  have hnothing (e : Exchange) : u.answered.has e = true ↔ False := by
    rw [create_answered created]
    cases e <;> decide
  simp only [after_answered created whole, after_written] at hused
  simp only [hnothing] at hnew
  refine ⟨hused, ?_⟩
  rw [handshake_phase_eq_iff, hused, hnew]
  constructor
  · intro h written suffices'
    exact (h.mp ⟨written, suffices'⟩).2
  · intro h
    constructor
    · rintro ⟨written, hs⟩
      exact ⟨written, h written hs⟩
    · -- a stream that suffices alone suffices all the more with what is answered before
      rintro ⟨written, hs⟩
      exact ⟨written, hs.mono fun _ hfalse => hfalse.elim⟩

theorem used_as_new_iff_of_samplePackets :
    ∃ u, create sampleSettings "account" 0 = .ok u ∧
      (∀ s ∈ [Step.handshake (sampleLink (samplePackets.drop 1))], s.readsAlone = false) ∧
      Suffices
        (fun e => ∃ m ∈ u.moments [.handshake (sampleLink (samplePackets.drop 1))], HeardAt e m)
        (Item.units (sampleLink (samplePackets.take 1)).inbound) ∧
      ¬ Suffices (fun _ => False) (Item.units (sampleLink (samplePackets.take 1)).inbound) := by
  obtain ⟨u, created⟩ : ∃ u, create sampleSettings "account" 0 = .ok u := ⟨_, rfl⟩
  have whole : ∀ s ∈ [Step.handshake (sampleLink (samplePackets.drop 1))],
      s.readsAlone = false := by
    intro s hs
    obtain rfl := List.mem_singleton.mp hs
    rfl
  obtain ⟨hphase, hsame⟩ := used_as_new_iff created whole (sampleLink (samplePackets.take 1))
  have authorized : ((u.after [.handshake (sampleLink (samplePackets.drop 1))]).handshake
      (sampleLink (samplePackets.take 1))).uplink.phase = .authorized := by
    cases created
    decide +kernel
  have closed : (u.handshake (sampleLink (samplePackets.take 1))).uplink.phase =
      .disconnected := by
    cases created
    decide +kernel
  refine ⟨u, created, whole, (hphase.mp authorized).2, ?_⟩
  intro hs
  have h := hsame.mpr fun _ _ => hs
  rw [authorized, closed] at h
  cases h

/-- A subscription alone authorizes an uplink that has heard the other answers over an earlier
link, which was closed; it does not authorize a new one. -/
theorem authorized_by_subscription_alone :
    ∃ u, create sampleSettings "account" 0 = .ok u ∧
      (u.after [.handshake (sampleLink (samplePackets.drop 1))]).phase = .disconnected ∧
      ((u.after [.handshake (sampleLink (samplePackets.drop 1))]).handshake
        (sampleLink (samplePackets.take 1))).uplink.phase = .authorized ∧
      (u.handshake (sampleLink (samplePackets.take 1))).uplink.phase = .disconnected :=
  ⟨_, rfl, by decide +kernel, by decide +kernel, by decide +kernel⟩

end Uplink

end PoolUplink
