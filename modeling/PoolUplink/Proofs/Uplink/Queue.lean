import Mathlib.Data.Finset.Card
import Mathlib.Data.List.Induction
import PoolUplink.Proofs.Uplink.History

/-!
# The queue and the miners taken on

What attaching a miner and running an uplink do to its queue and to the miners taken on, of which
there is one of each id, the latest.
-/

set_option autoImplicit false
set_option relaxedAutoImplicit false

namespace PoolUplink

namespace Miner

/-- The miners that are there when others, in order, have each taken the place of any of its id. -/
def takeOn (miners others : List Miner) : List Miner :=
  others.foldl (fun there m => there.filter (·.id != m.id) ++ [m]) miners

theorem takeOn_append (miners others more : List Miner) :
    takeOn miners (others ++ more) = takeOn (takeOn miners others) more :=
  List.foldl_append

private theorem takeOn_singleton (miners : List Miner) (m : Miner) :
    takeOn miners [m] = miners.filter (·.id != m.id) ++ [m] := rfl

theorem find?_takeOn (others : List Miner) (id : UInt32) :
    (takeOn [] others).find? (·.id == id) = others.reverse.find? (·.id == id) := by
  induction others using List.reverseRecOn with
  | nil => rfl
  | append_singleton others m ih =>
    rw [takeOn_append, takeOn_singleton, List.find?_append, List.reverse_append]
    by_cases h : m.id = id
    · have hnone : ((takeOn [] others).filter (·.id != m.id)).find? (·.id == id) = none := by
        apply List.find?_eq_none.mpr
        intro x hx
        have hne := (List.mem_filter.mp hx).2
        rw [h] at hne
        simpa using hne
      rw [hnone]
      simp [h]
    · have hother (x : Miner) : ((x.id != m.id) = true ∧ (x.id == id) = true) ↔ x.id = id := by
        rw [bne_iff_ne, beq_iff_eq, and_iff_right_iff_imp]
        rintro rfl
        exact Ne.symm h
      have hq : (fun x : Miner => decide (x.id = id)) = fun x => x.id == id := rfl
      simp only [List.find?_filter, hother, hq, ih]
      simp [h]

private theorem nodup_takeOn (others : List Miner) : ((takeOn [] others).map Miner.id).Nodup := by
  induction others using List.reverseRecOn with
  | nil => exact List.nodup_nil
  | append_singleton others m ih =>
    rw [takeOn_append, takeOn_singleton, List.map_append]
    apply List.nodup_append.mpr
    refine ⟨ih.sublist (List.filter_sublist.map Miner.id), by simp, ?_⟩
    intro a ha b hb
    obtain ⟨x, hx, rfl⟩ := List.mem_map.mp ha
    obtain rfl := List.mem_singleton.mp hb
    simpa using (List.mem_filter.mp hx).2

private theorem mem_takeOn (others : List Miner) (id : UInt32) :
    id ∈ (takeOn [] others).map Miner.id ↔ id ∈ others.map Miner.id := by
  induction others using List.reverseRecOn with
  | nil => rfl
  | append_singleton others m ih =>
    rw [takeOn_append, takeOn_singleton, List.map_append, List.map_append, List.mem_append,
      List.mem_append, ← ih]
    by_cases h : id = m.id
    · simp [h]
    · have hfilter : id ∈ ((takeOn [] others).filter (·.id != m.id)).map Miner.id ↔
          id ∈ (takeOn [] others).map Miner.id := by
        simp only [List.mem_map, List.mem_filter, bne_iff_ne]
        constructor
        · rintro ⟨x, ⟨hx, -⟩, rfl⟩
          exact ⟨x, hx, rfl⟩
        · rintro ⟨x, hx, rfl⟩
          exact ⟨x, ⟨hx, h⟩, rfl⟩
      rw [hfilter]

theorem length_takeOn (others : List Miner) :
    (takeOn [] others).length = (others.map Miner.id).toFinset.card := by
  have he : ((takeOn [] others).map Miner.id).toFinset = (others.map Miner.id).toFinset := by
    ext id
    rw [List.mem_toFinset, List.mem_toFinset, mem_takeOn]
  rw [← he, List.toFinset_card_of_nodup (nodup_takeOn others), List.length_map]

end Miner

namespace Uplink

private theorem welcomeAll_eq (u : Uplink) (ms : List Miner) :
    (u.welcomeAll ms).1 = { u with miners := Miner.takeOn u.miners ms } ∧
      Activity.introductions (u.welcomeAll ms).2 = ms.map (·, u.handle) := by
  induction ms generalizing u with
  | nil => exact ⟨rfl, rfl⟩
  | cons m rest ih =>
    obtain ⟨h1, h2⟩ := ih (u.welcome m).1
    constructor
    · exact h1
    · rw [welcomeAll]
      dsimp only
      rw [Activity.introductions_append, h2, List.map_cons]
      have hw : Activity.introductions (u.welcome m).2 = [(m, u.handle)] := by
        unfold welcome
        dsimp only
        split <;> rfl
      rw [hw]
      rfl

theorem drain_eq (u : Uplink) :
    u.drain.1 = { u with queue := [], miners := Miner.takeOn u.miners u.queue } ∧
      Activity.introductions u.drain.2 = u.queue.map (·, u.handle) :=
  welcomeAll_eq { u with queue := [] } u.queue

theorem run_eq (u : Uplink) :
    u.run.uplink.roster = { u.roster with
        queue := []
        miners := Miner.takeOn u.miners u.queue
        accepting := u.accepting && !u.stopping } ∧
      Activity.introductions u.run.trail = u.queue.map (·, u.handle) ∧
      (u.run.result = .ended ↔ u.stopping = true) := by
  unfold run
  by_cases hs : u.stopping = true
  · obtain ⟨h1, h2⟩ := drain_eq { u with accepting := false }
    have ha : (u.accepting && !u.stopping) = false := by
      rw [hs, Bool.not_true, Bool.and_false]
    rw [if_pos hs, ha]
    dsimp only
    rw [h1]
    exact ⟨rfl, h2, by simp [hs]⟩
  · obtain ⟨h1, h2⟩ := drain_eq u
    have ha : (u.accepting && !u.stopping) = u.accepting := by
      rw [Bool.eq_false_of_not_eq_true hs, Bool.not_false, Bool.and_true]
    rw [if_neg hs, ha]
    dsimp only
    rw [h1]
    exact ⟨rfl, h2, by simp [hs]⟩

theorem attach_uplink (u : Uplink) (miner : Miner) :
    (u.attach miner).2 =
      if (u.attach miner).1 = .queued then { u with queue := u.queue ++ [miner] } else u := by
  unfold attach
  split
  · rfl
  · split <;> rfl

theorem attach_admission (u : Uplink) (miner : Miner) :
    ((u.attach miner).1 = .closed ↔ u.accepting = false) ∧
    ((u.attach miner).1 = .queued ↔ u.accepting = true ∧ u.queue.length < u.capacity) ∧
    ((u.attach miner).1 = .full ↔ u.accepting = true ∧ u.capacity ≤ u.queue.length) := by
  unfold attach
  cases u.accepting with
  | false => simp
  | true =>
    rw [Bool.not_true, if_neg Bool.false_ne_true]
    split <;> simp <;> omega

end Uplink

end PoolUplink
