import PoolUplink.Proofs.Uplink.Reuse

/-!
# What an uplink knows of its pool

What the pool says goes into a few fields of an uplink, and nothing else does: however an uplink
has been used, these fields are what the notices taken so far, one after the other, make of those
of a new uplink.
-/

set_option autoImplicit false
set_option relaxedAutoImplicit false

namespace PoolUplink

open PoolUplink.Wire (Item Reading)

/-- What an uplink knows of its pool. -/
structure Knowledge where
  sessionId : UInt32
  versionMask : UInt32
  width : Nat
  features : Features
  negotiated : Negotiated
  answered : Answered

namespace Knowledge

def initial : Knowledge := ⟨0, 0, 0, .none, .requested, .nothing⟩

def learn (k : Knowledge) : Notice → Knowledge
  | .granted s => { k with
      sessionId := s.sessionId
      width := s.width
      answered := { k.answered with subscribe := true } }
  | .configured => { k with answered := { k.answered with configure := true } }
  | .featured features => { k with features, answered := { k.answered with features := true } }
  | .authorized => { k with answered := { k.answered with authorize := true } }
  | .masked mask => { k with versionMask := mask }
  | .strange => k
  | .idle => k

def learnAll (k : Knowledge) (ns : List Notice) : Knowledge := ns.foldl learn k

private theorem learnAll_append (k : Knowledge) (ns ms : List Notice) :
    k.learnAll (ns ++ ms) = (k.learnAll ns).learnAll ms :=
  List.foldl_append

private theorem learn_negotiated (k : Knowledge) (n : Notice) :
    (k.learn n).negotiated = k.negotiated := by
  cases n <;> rfl

theorem learnAll_negotiated (k : Knowledge) (ns : List Notice) :
    (k.learnAll ns).negotiated = k.negotiated := by
  induction ns generalizing k with
  | nil => rfl
  | cons n ns ih => exact (ih (k.learn n)).trans (k.learn_negotiated n)

theorem granted_of_learnAll (ns : List Notice)
    (h : (initial.learnAll ns).answered.subscribe = true) :
    ∃ s, (ns.filterMap Notice.grant?).getLast? = some s ∧
      (initial.learnAll ns).sessionId = s.sessionId ∧
      (initial.learnAll ns).width = s.width := by
  induction ns using List.reverseRecOn with
  | nil => cases h
  | append_singleton ns n ih =>
    have hn : initial.learnAll (ns ++ [n]) = (initial.learnAll ns).learn n :=
      learnAll_append initial ns [n]
    rw [hn] at h ⊢
    cases hg : n.grant? with
    | some s =>
      cases n <;> cases hg
      exact ⟨s, by simp [Notice.grant?], rfl, rfl⟩
    | none =>
      -- a notice that grants nothing leaves the subscription as it is
      have hkept : ((initial.learnAll ns).learn n).answered.subscribe =
            (initial.learnAll ns).answered.subscribe ∧
          ((initial.learnAll ns).learn n).sessionId = (initial.learnAll ns).sessionId ∧
          ((initial.learnAll ns).learn n).width = (initial.learnAll ns).width := by
        cases n with
        | granted s => cases hg
        | _ => exact ⟨rfl, rfl, rfl⟩
      obtain ⟨hs, hid, hw⟩ := hkept
      rw [hs] at h
      rw [hid, hw]
      simpa [hg] using ih h

end Knowledge

namespace Uplink

def knowledge (u : Uplink) : Knowledge :=
  ⟨u.sessionId, u.versionMask, u.width, u.features, u.negotiated, u.answered⟩

@[simp]
theorem knowledge_answered (u : Uplink) : u.knowledge.answered = u.answered := rfl

theorem create_knowledge {settings : Settings} {account : String} {index : Nat} {u : Uplink}
    (created : create settings account index = .ok u) : u.knowledge = .initial := by
  obtain ⟨pool, rfl⟩ := eq_of_create created
  rfl

private theorem heed_knowledge (u : Uplink) (n : Notice) :
    (u.heed n).knowledge = u.knowledge.learn n := by
  cases n <;> simp only [heed, promoted_eq] <;> rfl

private theorem heedAll_knowledge (u : Uplink) (ns : List Notice) :
    (u.heedAll ns).knowledge = u.knowledge.learnAll ns := by
  induction ns generalizing u with
  | nil => rfl
  | cons n ns ih =>
    have h := ih (u.heed n)
    rw [heed_knowledge] at h
    exact h

/-- What units tell an uplink as long as its handshake waits for responses. -/
def told (u : Uplink) : List (Reading Item) → List Notice
  | .got item :: rest =>
    match Notice.ofItem item with
    | .ok n => if u.phase.inHandshake then n :: (u.heed n).told rest else []
    | .error _ => []
  | _ => []

theorem follow_told (u : Uplink) (us : List (Reading Item)) :
    (u.follow us).uplink = u.heedAll (u.told us) := by
  induction us generalizing u with
  | nil =>
    rw [follow.eq_def]
    split <;> rfl
  | cons x us ih =>
    by_cases hp : u.phase.inHandshake = true
    · cases x with
      | waiting =>
        rw [follow, if_pos hp]
        rfl
      | failed fault =>
        rw [follow, if_pos hp]
        rfl
      | got item =>
        cases hn : Notice.ofItem item with
        | error fault =>
          rw [follow_of_error hp (onItem_of_error hn u)]
          simp only [told, hn]
          rfl
        | ok n =>
          rw [follow_of_ok hp (onItem_of_ok hn u)]
          simp only [told, hn, if_pos hp]
          exact ih (u.heed n)
    · have hnone : u.told (x :: us) = [] := by
        cases x with
        | got item => cases hn : Notice.ofItem item <;> simp [told, hn, hp]
        | _ => rfl
      rw [follow.eq_def, if_neg hp, hnone]
      rfl

private theorem exists_item_of_told {u : Uplink} {us : List (Reading Item)} {n : Notice}
    (h : n ∈ u.told us) : ∃ item, .got item ∈ us ∧ Notice.ofItem item = .ok n := by
  induction us generalizing u with
  | nil => cases h
  | cons x us ih =>
    cases x with
    | waiting => cases h
    | failed fault => cases h
    | got item =>
      cases hn : Notice.ofItem item with
      | error fault =>
        simp only [told, hn] at h
        cases h
      | ok m =>
        simp only [told, hn] at h
        split at h
        · rcases List.mem_cons.mp h with rfl | h
          · exact ⟨item, List.mem_cons_self, hn⟩
          · obtain ⟨other, hm, ho⟩ := ih h
            exact ⟨other, List.mem_cons_of_mem _ hm, ho⟩
        · cases h

def toldOver (u : Uplink) (link : Link) : List Notice :=
  if (u.attachLink link).writeSetup.result = .ok () then
    (u.attachLink link).unlinked.told (Item.units link.inbound)
  else []

def toldIn : Uplink × Step → List Notice
  | (u, .consume) =>
    match u.carrier with
    | .live link => u.unlinked.told (Item.units link.inbound)
    | _ => []
  | (u, .start (.opened link)) => u.toldOver link
  | (u, .handshake link) => u.toldOver link
  | (_, .line bytes) => (Notice.ofItem (.line bytes)).toOption.toList
  | _ => []

private theorem exists_item_of_toldOver {u : Uplink} {link : Link} {n : Notice}
    (h : n ∈ u.toldOver link) : ∃ item, Notice.ofItem item = .ok n := by
  unfold toldOver at h
  split at h
  · obtain ⟨item, -, hn⟩ := exists_item_of_told h
    exact ⟨item, hn⟩
  · cases h

theorem exists_item_of_toldIn {m : Uplink × Step} {n : Notice} (h : n ∈ toldIn m) :
    ∃ item, Notice.ofItem item = .ok n := by
  obtain ⟨u, s⟩ := m
  unfold toldIn at h
  split at h
  · split at h
    · obtain ⟨item, -, hn⟩ := exists_item_of_told h
      exact ⟨item, hn⟩
    · cases h
  · exact exists_item_of_toldOver h
  · exact exists_item_of_toldOver h
  · rename_i bytes _
    cases hn : Notice.ofItem (.line bytes) with
    | error fault =>
      rw [hn] at h
      cases h
    | ok m =>
      rw [hn] at h
      obtain rfl := List.mem_singleton.mp h
      exact ⟨_, hn⟩
  · cases h

theorem consume_unlinked (u : Uplink) :
    u.consume.uplink.unlinked = u.unlinked.heedAll (toldIn (u, .consume)) := by
  unfold consume toldIn
  dsimp only
  cases u.carrier with
  | live link =>
    dsimp only
    rw [(consumeFrom_readsAs [] u link).uplink, follow_told]
  | absent => rfl
  | dropped link => rfl

private theorem withoutUnread_knowledge (u : Uplink) :
    u.withoutUnread.knowledge = u.knowledge := rfl

theorem handshake_heeds (u : Uplink) (link : Link) :
    (u.handshake link).uplink.knowledge =
        ((u.attachLink link).unlinked.heedAll (u.toldOver link)).knowledge ∧
      ((u.handshake link).uplink.phase =
          ((u.attachLink link).unlinked.heedAll (u.toldOver link)).phase ∨
        (u.handshake link).uplink.phase = .disconnected) := by
  by_cases written : (u.attachLink link).writeSetup.result = .ok ()
  · rw [toldOver, if_pos written, ← follow_told, ← withoutUnread_knowledge,
      ← withoutUnread_phase, handshake_of_written written]
    generalize (u.attachLink link).unlinked.follow (Item.units link.inbound) = read
    dsimp only
    split
    · exact ⟨rfl, Or.inl rfl⟩
    · exact ⟨rfl, Or.inr rfl⟩
  · rw [handshake_of_refused written, toldOver, if_neg written]
    exact ⟨rfl, Or.inr rfl⟩

private theorem run_knowledge (u : Uplink) : u.run.uplink.knowledge = u.knowledge := by
  unfold run
  split
  · dsimp only
    rw [(drain_eq { u with accepting := false }).1]
    rfl
  · dsimp only
    rw [(drain_eq u).1]
    rfl

theorem line_eq (u : Uplink) (bytes : List UInt8) :
    (u.step (.line bytes)).1 =
      match Notice.ofItem (.line bytes) with
      | .ok n => u.heed n
      | .error _ => u := by
  dsimp only [step]
  rw [onLine_fst]
  cases Notice.ofItem (.line bytes) <;> rfl

theorem step_knowledge (u : Uplink) (s : Step) :
    (u.step s).1.knowledge = u.knowledge.learnAll (toldIn (u, s)) := by
  cases s with
  | consume =>
    have h := congrArg knowledge (consume_unlinked u)
    rw [heedAll_knowledge] at h
    exact h
  | handshake link =>
    dsimp only [step]
    rw [(handshake_heeds u link).1, heedAll_knowledge]
    rfl
  | start dial =>
    cases dial with
    | opened link =>
      dsimp only [step]
      rw [start_opened, (handshake_heeds u link).1, heedAll_knowledge]
      rfl
    | failed reason => rfl
    | expired => rfl
  | line bytes =>
    rw [line_eq, toldIn]
    cases Notice.ofItem (.line bytes) with
    | error fault => rfl
    | ok n => exact heed_knowledge u n
  | attach miner =>
    change (u.attach miner).2.knowledge = u.knowledge
    rw [attach_uplink]
    split <;> rfl
  | setup =>
    obtain ⟨⟨carrier, hu⟩, -⟩ := writeAll_carrier u
      (Rpc.Setup.all u.settings.userAgent u.account)
    have hk := congrArg knowledge hu
    exact hk
  | write request =>
    obtain ⟨⟨carrier, hu⟩, -⟩ := write_carrier u request
    have hk := congrArg knowledge hu
    exact hk
  | run => exact run_knowledge u
  | connect link => rfl
  | close => rfl
  | stop => rfl
  | turnAway => rfl

/-- However an uplink is used, it knows what it has been told. -/
theorem after_knowledge (u : Uplink) (steps : List Step) :
    (u.after steps).knowledge = u.knowledge.learnAll ((u.moments steps).flatMap toldIn) := by
  induction steps using List.reverseRecOn with
  | nil => rfl
  | append_singleton steps s ih =>
    rw [after_append, step_knowledge, ih, moments_append, List.flatMap_append,
      Knowledge.learnAll_append]
    simp

end Uplink

end PoolUplink
