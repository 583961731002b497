import PoolUplink.Proofs.Uplink.Outcome
import PoolUplink.Proofs.Uplink.Queue

/-!
# The miners of an uplink over its history

No miner that has been admitted is lost, taken on twice or overtaken, in whatever order an uplink
is used: the miners admitted are, in order, those that have left the queue and those still in it.
-/

set_option autoImplicit false
set_option relaxedAutoImplicit false

namespace PoolUplink.Uplink

def admitted? : Uplink × Step → Option Miner
  | (v, .attach miner) => if (v.attach miner).1 = .queued then some miner else none
  | _ => none

def leavers (m : Uplink × Step) : List Miner :=
  m.1.queue.take (m.1.queue.length - (m.1.step m.2).1.queue.length)

def applied : Uplink × Step → List Miner
  | (v, .run) => leavers (v, .run)
  | _ => []

/-- Whether a step closes the queue: a run that comes to its end, or turning miners away. -/
def closes : Uplink × Step → Bool
  | (v, .run) => v.run.result == .ended
  | (_, .turnAway) => true
  | _ => false

private theorem leavers_of_kept {v : Uplink} {s : Step}
    (h : v.queue.length ≤ (v.step s).1.queue.length) : leavers (v, s) = [] := by
  unfold leavers
  dsimp only
  rw [Nat.sub_eq_zero_of_le h, List.take_zero]

private theorem leavers_of_emptied {v : Uplink} {s : Step} (h : (v.step s).1.queue = []) :
    leavers (v, s) = v.queue := by
  unfold leavers
  dsimp only
  rw [h, List.length_nil, Nat.sub_zero, List.take_length]

structure Passes (v : Uplink) (s : Step) : Prop where
  settings : (v.step s).1.settings = v.settings
  account : (v.step s).1.account = v.account
  poolIndex : (v.step s).1.poolIndex = v.poolIndex
  queue : v.queue ++ (admitted? (v, s)).toList = leavers (v, s) ++ (v.step s).1.queue
  miners : (v.step s).1.miners = Miner.takeOn v.miners (applied (v, s))
  accepting : (v.step s).1.accepting = (v.accepting && !closes (v, s))
  introductions : Activity.introductions (v.step s).2 = (applied (v, s)).map (·, v.handle)
  stay : s ≠ .run → s ≠ .turnAway → leavers (v, s) = []

private theorem passes_of_aside {v : Uplink} {s : Step} (h : s.handlesMiners = false)
    (ha : admitted? (v, s) = none) (hp : applied (v, s) = []) (hc : closes (v, s) = false) :
    Passes v s := by
  have hs := step_aside v h
  have hq : (v.step s).1.queue = v.queue := congrArg Roster.queue hs.roster
  have hl := leavers_of_kept (Nat.le_of_eq (congrArg List.length hq.symm))
  refine ⟨congrArg Roster.settings hs.roster, congrArg Roster.account hs.roster,
    congrArg Roster.poolIndex hs.roster, ?_, ?_, ?_, ?_, fun _ _ => hl⟩
  · rw [ha, hl, hq]
    exact List.append_nil _
  · rw [hp]
    exact congrArg Roster.miners hs.roster
  · rw [hc, Bool.not_false, Bool.and_true]
    exact congrArg Roster.accepting hs.roster
  · rw [hp]
    exact hs.silent

private theorem attach_passes (v : Uplink) (miner : Miner) : Passes v (.attach miner) := by
  have hv : (v.step (.attach miner)).1 =
      { v with queue := v.queue ++ (admitted? (v, .attach miner)).toList } := by
    refine (attach_uplink v miner).trans ?_
    unfold admitted?
    dsimp only
    split
    · rfl
    · rw [Option.toList_none, List.append_nil]
  have hl : leavers (v, .attach miner) = [] := by
    apply leavers_of_kept
    rw [hv, List.length_append]
    exact Nat.le_add_right _ _
  have hc : closes (v, .attach miner) = false := rfl
  refine ⟨?_, ?_, ?_, ?_, ?_, ?_, rfl, fun _ _ => hl⟩
  · rw [hv]
  · rw [hv]
  · rw [hv]
  · rw [hl, hv]
    rfl
  · rw [hv]
    rfl
  · rw [hv, hc, Bool.not_false, Bool.and_true]

private theorem run_passes (v : Uplink) : Passes v .run := by
  obtain ⟨hr, hi, hs⟩ := run_eq v
  have hq : (v.step .run).1.queue = [] := congrArg Roster.queue hr
  have hl : leavers (v, .run) = v.queue := leavers_of_emptied hq
  have hc : closes (v, .run) = v.stopping := by
    rw [Bool.eq_iff_iff, ← hs]
    exact beq_iff_eq
  refine ⟨congrArg Roster.settings hr, congrArg Roster.account hr, congrArg Roster.poolIndex hr,
    ?_, ?_, ?_, ?_, fun h => absurd rfl h⟩
  · rw [hl, hq]
    rfl
  · rw [applied, hl]
    exact congrArg Roster.miners hr
  · rw [hc]
    exact congrArg Roster.accepting hr
  · rw [applied, hl]
    exact hi

private theorem turnAway_passes (v : Uplink) : Passes v .turnAway := by
  have hl : leavers (v, .turnAway) = v.queue := leavers_of_emptied rfl
  refine ⟨rfl, rfl, rfl, ?_, rfl, ?_, ?_, fun _ h => absurd rfl h⟩
  · rw [hl]
    rfl
  · exact (Bool.and_false _).symm
  · apply Activity.introductions_of_logged
    intro a ha
    obtain ⟨miner, -, rfl⟩ := List.mem_map.mp ha
    exact ⟨_, rfl⟩

theorem step_passes (v : Uplink) (s : Step) : Passes v s := by
  cases s with
  | attach miner => exact attach_passes v miner
  | run => exact run_passes v
  | turnAway => exact turnAway_passes v
  | _ => exact passes_of_aside rfl rfl rfl rfl

/-- What steps make of the miners of an uplink. -/
structure Conserves (u : Uplink) (steps : List Step) : Prop where
  settings : (u.after steps).settings = u.settings
  account : (u.after steps).account = u.account
  poolIndex : (u.after steps).poolIndex = u.poolIndex
  queue : u.queue ++ (u.moments steps).filterMap admitted? =
    (u.moments steps).flatMap leavers ++ (u.after steps).queue
  miners : (u.after steps).miners = Miner.takeOn u.miners ((u.moments steps).flatMap applied)
  accepting : (u.after steps).accepting = (u.accepting && !(u.moments steps).any closes)
  bounded : u.queue.length ≤ u.capacity → (u.after steps).queue.length ≤ u.capacity

private theorem room_of_admitted {v : Uplink} {s : Step} {miner : Miner}
    (h : admitted? (v, s) = some miner) : v.queue.length < v.capacity := by
  cases s with
  | attach m =>
    unfold admitted? at h
    dsimp only at h
    split at h
    · rename_i ha
      exact ((attach_admission v m).2.1.mp ha).2
    · cases h
  | _ => cases h

private theorem queue_length_of_step {v : Uplink} (s : Step) (h : v.queue.length ≤ v.capacity) :
    (v.step s).1.queue.length ≤ v.capacity := by
  have hq := congrArg List.length (step_passes v s).queue
  rw [List.length_append, List.length_append] at hq
  cases ha : admitted? (v, s) with
  | none =>
    rw [ha, Option.toList_none, List.length_nil] at hq
    omega
  | some miner =>
    have hroom := room_of_admitted ha
    rw [ha, Option.toList_some, List.length_singleton] at hq
    omega

theorem conserves (u : Uplink) (steps : List Step) : Conserves u steps := by
  induction steps using List.reverseRecOn with
  | nil =>
    refine ⟨rfl, rfl, rfl, List.append_nil _, rfl, ?_, fun h => h⟩
    exact (Bool.and_true _).symm
  | append_singleton steps s ih =>
    -- each part holds before the last step, which adds what it passes
    have hs := step_passes (u.after steps) s
    constructor
    · rw [after_append, hs.settings, ih.settings]
    · rw [after_append, hs.account, ih.account]
    · rw [after_append, hs.poolIndex, ih.poolIndex]
    · -- what the step admits stands behind all that was admitted before
      rw [after_append, moments_append, List.filterMap_append, List.flatMap_append,
        ← List.append_assoc, ih.queue, List.append_assoc, List.append_assoc]
      have hq := hs.queue
      cases ha : admitted? (u.after steps, s) <;> rw [ha] at hq <;> simpa [ha] using hq
    · rw [after_append, hs.miners, ih.miners, moments_append, List.flatMap_append,
        Miner.takeOn_append]
      simp
    · rw [after_append, hs.accepting, ih.accepting, moments_append, List.any_append]
      simp [Bool.and_assoc]
    · intro h
      have hc : (u.after steps).capacity = u.capacity := by rw [capacity, ih.settings, capacity]
      have hb := ih.bounded h
      rw [← hc] at hb ⊢
      rw [after_append]
      exact queue_length_of_step s hb

/-- Of a new uplink and any steps: the miners admitted are, in order, those that have left the
queue and those in it. A run gives each that leaves one handle, in order, with the phase it is
entered with; nothing else gives handles, nothing else changes the miners taken on, and only
turning miners away also takes them off the queue. Of the miners taken on, the last one of an id
counts. The queue is bounded; it is closed once a run has come to its end or miners have been
turned away, and otherwise it admits at once what it has room for, the rest waits. -/
theorem miners_conserved {settings : Settings} {account : String} {index : Nat} {u : Uplink}
    (created : create settings account index = .ok u) (steps : List Step) :
    (u.moments steps).filterMap admitted? =
      (u.moments steps).flatMap leavers ++ (u.after steps).queue ∧
    (∀ v, (v, .run) ∈ u.moments steps →
      Activity.introductions (v.step .run).2 =
        (leavers (v, .run)).map fun miner => (miner, ⟨index, v.phase⟩)) ∧
    (∀ v s, (v, s) ∈ u.moments steps → s ≠ .run →
      Activity.introductions (v.step s).2 = [] ∧ (v.step s).1.miners = v.miners) ∧
    (∀ v s, (v, s) ∈ u.moments steps → s ≠ .run → s ≠ .turnAway →
      leavers (v, s) = [] ∧ (v.step s).1.queue = v.queue ++ (admitted? (v, s)).toList) ∧
    (∀ id, (u.after steps).miner? id =
      ((u.moments steps).flatMap applied).reverse.find? (·.id == id)) ∧
    (u.after steps).miners.length =
      (((u.moments steps).flatMap applied).map Miner.id).toFinset.card ∧
    (u.after steps).queue.length ≤ max settings.queueCapacity.toNat 1 ∧
    ∀ miner,
      (((u.after steps).attach miner).1 = .closed ↔ ∃ m ∈ u.moments steps, closes m = true) ∧
      (((u.after steps).attach miner).1 = .queued ↔
        (¬ ∃ m ∈ u.moments steps, closes m = true) ∧
          (u.after steps).queue.length < max settings.queueCapacity.toNat 1) ∧
      (((u.after steps).attach miner).1 = .full ↔
        (¬ ∃ m ∈ u.moments steps, closes m = true) ∧
          (u.after steps).queue.length = max settings.queueCapacity.toNat 1) ∧
      (((u.after steps).attach miner).1 ≠ .queued →
        ((u.after steps).attach miner).2 = u.after steps) := by
  have hroster := create_roster created
  have hsettings : u.settings = settings := congrArg Roster.settings hroster
  have hqueue : u.queue = [] := congrArg Roster.queue hroster
  have hminers : u.miners = [] := congrArg Roster.miners hroster
  have haccepting : u.accepting = true := congrArg Roster.accepting hroster
  have h := conserves u steps
  have hm : (u.after steps).miners = Miner.takeOn [] ((u.moments steps).flatMap applied) := by
    rw [h.miners, hminers]
  have hcapacity : (u.after steps).capacity = max settings.queueCapacity.toNat 1 := by
    rw [capacity, h.settings, hsettings]
  have hbound : (u.after steps).queue.length ≤ max settings.queueCapacity.toNat 1 := by
    have hb := h.bounded (by rw [hqueue]; exact Nat.zero_le _)
    rwa [capacity, hsettings] at hb
  have hclosed : (u.after steps).accepting = false ↔ ∃ m ∈ u.moments steps, closes m = true := by
    rw [h.accepting, haccepting, Bool.true_and, Bool.not_eq_false', List.any_eq_true]
  have hopen : (u.after steps).accepting = true ↔
      ¬ ∃ m ∈ u.moments steps, closes m = true := by
    rw [← hclosed, Bool.not_eq_false]
  refine ⟨?_, ?_, ?_, ?_, ?_, ?_, hbound, ?_⟩
  · rw [← h.queue, hqueue, List.nil_append]
  · intro v hv
    -- earlier steps have led to `v`, so it still is of the pool it was created for
    obtain ⟨before, rfl⟩ := exists_after_of_mem hv
    have hindex : (u.after before).poolIndex = index := by
      rw [(conserves u before).poolIndex]
      exact congrArg Roster.poolIndex hroster
    rw [(step_passes _ .run).introductions, handle, hindex]
    rfl
  · intro v s hv hs
    have happlied : applied (v, s) = [] := by
      cases s <;> first | rfl | exact absurd rfl hs
    have hp := step_passes v s
    rw [hp.introductions, hp.miners, happlied]
    exact ⟨rfl, rfl⟩
  · intro v s hv hs ht
    have hp := step_passes v s
    have hq := hp.queue
    rw [hp.stay hs ht, List.nil_append] at hq
    exact ⟨hp.stay hs ht, hq.symm⟩
  · intro id
    rw [miner?, hm, Miner.find?_takeOn]
  · rw [hm, Miner.length_takeOn]
  · intro miner
    obtain ⟨h1, h2, h3⟩ := attach_admission (u.after steps) miner
    rw [hclosed] at h1
    rw [hopen, hcapacity] at h2 h3
    refine ⟨h1, h2, ?_, ?_⟩
    · rw [h3]
      exact and_congr_right fun _ => ⟨Nat.le_antisymm hbound, fun he => he.ge⟩
    · intro hq
      rw [attach_uplink, if_neg hq]

def sampleSteps : List Step :=
  [.attach ⟨1, 0⟩, .attach ⟨2, 1⟩, .handshake (sampleLink samplePackets), .run, .attach ⟨1, 2⟩,
    .stop, .run]

def narrowSettings : Settings := { sampleSettings with queueCapacity := 1 }

theorem miners_conserved_of_sampleSteps :
    ∃ u, create narrowSettings "account" 0 = .ok u ∧
      (u.moments sampleSteps).filterMap admitted? = [⟨1, 0⟩, ⟨1, 2⟩] ∧
      (u.after sampleSteps).queue = [] ∧
      (u.moments sampleSteps).flatMap leavers = [⟨1, 0⟩, ⟨1, 2⟩] ∧
      (u.after sampleSteps).miner? 1 = some ⟨1, 2⟩ ∧
      ((u.after sampleSteps).attach ⟨3, 3⟩).1 = .closed := by
  obtain ⟨u, created⟩ : ∃ u, create narrowSettings "account" 0 = .ok u := ⟨_, rfl⟩
  obtain ⟨hqueue, -, -, -, hminer, -, -, hattach⟩ := miners_conserved created sampleSteps
  have hadmitted : (u.moments sampleSteps).filterMap admitted? = [⟨1, 0⟩, ⟨1, 2⟩] := by
    cases created
    decide +kernel
  have hempty : (u.after sampleSteps).queue = [] := by
    cases created
    decide +kernel
  have happlied : (u.moments sampleSteps).flatMap applied = [⟨1, 0⟩, ⟨1, 2⟩] := by
    cases created
    decide +kernel
  have hclosed : (u.moments sampleSteps).any closes = true := by
    cases created
    decide +kernel
  rw [hadmitted, hempty, List.append_nil] at hqueue
  rw [happlied] at hminer
  exact ⟨u, created, hadmitted, hempty, hqueue.symm, hminer 1,
    (hattach ⟨3, 3⟩).1.mpr (List.any_eq_true.mp hclosed)⟩

/-- A queue that is full admits no miner at once, though it has not been closed. -/
theorem not_queued_of_full :
    ∃ u, create narrowSettings "account" 0 = .ok u ∧
      (u.moments [.attach ⟨1, 0⟩]).any closes = false ∧
      ((u.after [.attach ⟨1, 0⟩]).attach ⟨2, 1⟩).1 = .full :=
  ⟨_, rfl, by decide +kernel, by decide +kernel⟩

end PoolUplink.Uplink
