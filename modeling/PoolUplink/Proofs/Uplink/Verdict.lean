import PoolUplink.Proofs.Uplink.Reuse

/-!
# What others learn of an uplink

Other parts of the program wait for the outcome of the handshake. Whatever is done with an uplink,
they wait exactly as long as nothing has been done to open it, and from then on learn whether the
last attempt succeeded and has not been undone since, also when the uplink is gone.
-/

set_option autoImplicit false
set_option relaxedAutoImplicit false

namespace PoolUplink

def Step.isPart : Step → Bool
  | connect _ => true
  | setup => true
  | consume => true
  | line _ => true
  | _ => false

/-- Whether a step is an attempt to open an uplink, with a handshake if there is a link. -/
def Step.opens : Step → Bool
  | handshake _ => true
  | start _ => true
  | _ => false

namespace Uplink

/-- Whether an uplink is closed for good in a step: by closing it, or by a run that comes to its
end. -/
def hangsUp : Uplink × Step → Bool
  | (_, .close) => true
  | (u, .run) => u.run.result == .ended
  | _ => false

private theorem create_closed {settings : Settings} {account : String} {index : Nat} {u : Uplink}
    (created : create settings account index = .ok u) :
    u.phase = .disconnected ∧ u.settled = false := by
  obtain ⟨pool, rfl⟩ := eq_of_create created
  exact ⟨rfl, rfl⟩

private theorem handshake_settled (u : Uplink) (link : Link) :
    (u.handshake link).uplink.settled = true := by
  rw [handshake, settle_uplink]
  split <;> rfl

theorem step_of_opening (u : Uplink) {s : Step} (opening : s.opens = true) :
    (u.step s).1.settled = true ∧
      ((u.step s).1.phase = .authorized ∨ (u.step s).1.phase = .disconnected) := by
  cases s with
  | handshake link =>
    dsimp only [step]
    exact ⟨handshake_settled u link, handshake_phases u link⟩
  | start dial =>
    cases dial with
    | opened link =>
      dsimp only [step]
      rw [start_opened]
      exact ⟨handshake_settled u link, handshake_phases u link⟩
    | failed reason => exact ⟨rfl, Or.inr rfl⟩
    | expired => exact ⟨rfl, Or.inr rfl⟩
  | _ => cases opening

private theorem run_phase (u : Uplink) :
    u.run.uplink.settled = u.settled ∧
      u.run.uplink.phase = if hangsUp (u, .run) = true then .disconnected else u.phase := by
  unfold hangsUp run
  by_cases stopping : u.stopping = true
  · simp only [if_pos stopping]
    rw [(drain_eq { u with accepting := false }).1]
    exact ⟨rfl, rfl⟩
  · simp only [if_neg stopping]
    rw [(drain_eq u).1]
    exact ⟨rfl, rfl⟩

theorem step_of_other (u : Uplink) {s : Step} (whole : s.isPart = false)
    (other : s.opens = false) :
    (u.step s).1.settled = u.settled ∧
      (u.step s).1.phase = if hangsUp (u, s) = true then .disconnected else u.phase := by
  cases s with
  | connect link => cases whole
  | setup => cases whole
  | consume => cases whole
  | line bytes => cases whole
  | handshake link => cases other
  | start dial => cases other
  | attach miner =>
    change (u.attach miner).2.settled = u.settled ∧ (u.attach miner).2.phase = u.phase
    rw [attach_uplink]
    split <;> exact ⟨rfl, rfl⟩
  | write request =>
    obtain ⟨⟨carrier, hu⟩, -⟩ := write_carrier u request
    have hsettled := congrArg settled hu
    have hphase := congrArg phase hu
    exact ⟨hsettled, hphase⟩
  | close => exact ⟨rfl, rfl⟩
  | stop => exact ⟨rfl, rfl⟩
  | run => exact run_phase u
  | turnAway => exact ⟨rfl, rfl⟩

section Histories

variable {u : Uplink} {steps : List Step}

private theorem after_settled (whole : ∀ s ∈ steps, s.isPart = false) :
    (u.after steps).settled = (u.settled || steps.any Step.opens) := by
  induction steps using List.reverseRecOn with
  | nil => exact (Bool.or_false _).symm
  | append_singleton steps s ih =>
    have ih := ih fun t ht => whole t (List.mem_append_left _ ht)
    rw [after_append, List.any_append, List.any_cons, List.any_nil, Bool.or_false, ← Bool.or_assoc,
      ← ih]
    cases hs : s.opens with
    | true => rw [(step_of_opening _ hs).1, Bool.or_true]
    | false => rw [(step_of_other _ (whole s (by simp)) hs).1, Bool.or_false]

private theorem after_phases (hu : u.phase = .authorized ∨ u.phase = .disconnected)
    (whole : ∀ s ∈ steps, s.isPart = false) :
    (u.after steps).phase = .authorized ∨ (u.after steps).phase = .disconnected := by
  induction steps using List.reverseRecOn with
  | nil => exact hu
  | append_singleton steps s ih =>
    have ih := ih fun t ht => whole t (List.mem_append_left _ ht)
    rw [after_append]
    cases hs : s.opens with
    | true => exact (step_of_opening _ hs).2
    | false =>
      rw [(step_of_other _ (whole s (by simp)) hs).2]
      split
      · exact Or.inr rfl
      · exact ih

private theorem after_phase (whole : ∀ s ∈ steps, s.isPart = false)
    (other : ∀ s ∈ steps, s.opens = false) :
    (u.after steps).phase =
      if (u.moments steps).any hangsUp = true then .disconnected else u.phase := by
  induction steps using List.reverseRecOn with
  | nil => rfl
  | append_singleton steps s ih =>
    have ih := ih (fun t ht => whole t (List.mem_append_left _ ht))
      fun t ht => other t (List.mem_append_left _ ht)
    rw [after_append, (step_of_other _ (whole s (by simp)) (other s (by simp))).2, ih,
      moments_append, List.any_append, List.any_cons, List.any_nil, Bool.or_false]
    cases hangsUp (u.after steps, s) <;> cases (u.moments steps).any hangsUp <;> rfl

end Histories

/-- However a new uplink is used, it is authorized or disconnected after each step. Nothing is known
of the outcome exactly as long as no step has tried to open it. From then on, also once the uplink
is gone, the outcome is that it is authorized if the last attempt has authorized it and nothing has
closed it since, and else that it is disconnected. -/
theorem outcome_of_history {settings : Settings} {account : String} {index : Nat} {u : Uplink}
    (created : create settings account index = .ok u) {steps : List Step}
    (whole : ∀ s ∈ steps, s.isPart = false) :
    ((u.after steps).phase = .authorized ∨ (u.after steps).phase = .disconnected) ∧
    ((u.after steps).outcome? = none ↔ ∀ s ∈ steps, s.opens = false) ∧
    ((∀ s ∈ steps, s.opens = false) → (u.after steps).finalOutcome = .disconnected) ∧
    ∀ before opening later, steps = before ++ opening :: later → opening.opens = true →
      (∀ s ∈ later, s.opens = false) →
      let opened := ((u.after before).step opening).1
      (u.after steps).outcome? = some (u.after steps).finalOutcome ∧
        (u.after steps).finalOutcome =
          if opened.phase = .authorized ∧ ∀ m ∈ opened.moments later, hangsUp m = false
          then .authorized else .disconnected := by
  obtain ⟨hphase, hsettled⟩ := create_closed created
  have hopened : (u.after steps).settled = steps.any Step.opens := by
    rw [after_settled whole, hsettled, Bool.false_or]
  refine ⟨after_phases (Or.inr hphase) whole, ?_, ?_, ?_⟩
  · rw [outcome?, hopened, ite_eq_right_iff]
    simp
  · intro other
    have unopened : steps.any Step.opens = false := by simpa using other
    rw [finalOutcome, hopened, unopened]
    rfl
  · rintro before opening later rfl hopening other opened
    have hlater : ∀ s ∈ later, s.isPart = false :=
      fun s hs => whole s (List.mem_append_right _ (List.mem_cons_of_mem _ hs))
    have hafter : u.after (before ++ opening :: later) = opened.after later := by
      simp only [opened, after, List.foldl_append, List.foldl_cons]
    have hknown : (u.after (before ++ opening :: later)).settled = true := by
      rw [hopened, List.any_append, List.any_cons, hopening, Bool.true_or, Bool.or_true]
    rw [outcome?, finalOutcome, if_pos hknown, if_pos hknown, hafter,
      after_phase hlater other]
    refine ⟨rfl, ?_⟩
    cases hangs : (opened.moments later).any hangsUp with
    | true =>
      obtain ⟨m, hm, closed⟩ := List.any_eq_true.mp hangs
      rw [if_pos rfl, if_neg]
      rintro ⟨-, kept⟩
      rw [kept m hm] at closed
      cases closed
    | false =>
      have kept : ∀ m ∈ opened.moments later, hangsUp m = false := by simpa using hangs
      rw [if_neg Bool.false_ne_true]
      have ended : opened.phase = .authorized ∨ opened.phase = .disconnected :=
        (step_of_opening (u.after before) hopening).2
      rcases ended with h | h
      · rw [h, if_pos ⟨rfl, kept⟩]
      · rw [h, if_neg]
        rintro ⟨authorized, -⟩
        cases authorized

def sampleAttempts : List Step :=
  [.attach ⟨1, 0⟩, .handshake (sampleLink []), .write Rpc.Setup.features]

def sampleOpening : Step := .handshake (sampleLink samplePackets)

theorem outcome_of_history_of_sampleAttempts :
    ∃ u, create sampleSettings "account" 0 = .ok u ∧
      (∀ s ∈ sampleAttempts ++ sampleOpening :: [.run, .stop, .run], s.isPart = false) ∧
      (u.after (sampleAttempts ++ sampleOpening :: [.run, .stop])).outcome? =
        some .authorized ∧
      (u.after (sampleAttempts ++ sampleOpening :: [.run, .stop, .run])).outcome? =
        some .disconnected := by
  obtain ⟨u, created⟩ : ∃ u, create sampleSettings "account" 0 = .ok u := ⟨_, rfl⟩
  have whole : ∀ s ∈ sampleAttempts ++ sampleOpening :: [.run, .stop, .run],
      s.isPart = false := by decide
  have authorized : ((u.after sampleAttempts).step sampleOpening).1.phase = .authorized := by
    cases created
    decide +kernel
  have kept : ∀ m ∈ ((u.after sampleAttempts).step sampleOpening).1.moments [.run, .stop],
      hangsUp m = false := by
    cases created
    decide +kernel
  have closed : ¬ ∀ m ∈ ((u.after sampleAttempts).step sampleOpening).1.moments
      [.run, .stop, .run], hangsUp m = false := by
    cases created
    decide +kernel
  have shorter : ∀ s ∈ sampleAttempts ++ sampleOpening :: [.run, .stop],
      s.isPart = false := by decide
  obtain ⟨hout, hfinal⟩ := (outcome_of_history created shorter).2.2.2 _ _ _ rfl rfl (by decide)
  obtain ⟨hout', hfinal'⟩ := (outcome_of_history created whole).2.2.2 _ _ _ rfl rfl (by decide)
  refine ⟨u, created, whole, ?_, ?_⟩
  · rw [hout, hfinal, if_pos ⟨authorized, kept⟩]
  · rw [hout', hfinal', if_neg fun h => closed h.2]

end Uplink

end PoolUplink
