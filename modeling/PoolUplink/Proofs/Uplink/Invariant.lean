import PoolUplink.Proofs.Uplink.Knowledge

/-!
# What holds of an uplink at any time

However an uplink is used, its phase fits what it knows of its pool: it is subscribed or authorized
only behind a subscription wide enough, and of the two it is authorized as soon as all exchanges
are answered. A line of the pool never takes it back.
-/

set_option autoImplicit false
set_option relaxedAutoImplicit false

namespace PoolUplink

open PoolUplink.Wire (Item)

def Negotiated.request (n : Negotiated) : Rpc.Message :=
  .named Rpc.Setup.Exchange.configure.id "mining.configure"
    (.array [.array [.string "version-rolling"],
      .object [("version-rolling.mask", .string (String.ofList (Text.Numeral.hex 8 n.mask.toNat))),
        ("version-rolling.min-bit-count", .ofNat n.leastBits.toNat)]])

private theorem Negotiated.request_requested : requested.request = Rpc.Setup.configure := by
  decide +kernel

private theorem Subscription.leastWidth_le_of_ofResult {result error : Option Json.Value}
    {s : Subscription} (h : ofResult result error = .ok s) : leastWidth ≤ s.width := by
  obtain ⟨id, n, -, enough, rfl⟩ := ofResult_eq_ok_iff.mp h
  change 6 ≤ (amount n).toNat
  omega

private theorem Notice.leastWidth_le_of_ofItem {item : Item} {s : Subscription}
    (h : ofItem item = .ok (.granted s)) : Subscription.leastWidth ≤ s.width := by
  obtain ⟨result, error, hresponse⟩ := ofItem_of_answers ((answers_iff h .subscribe).mpr rfl)
  rw [hresponse] at h
  rcases ofExchange_eq_ok_iff.mp h with ⟨-, t, hs, heq⟩ | ⟨hother, -⟩ | ⟨hother, -⟩ | ⟨hother, -⟩
  · cases heq
    exact Subscription.leastWidth_le_of_ofResult hs
  · cases hother
  · cases hother
  · cases hother

namespace Uplink

/-- The phase fits the answers. -/
structure Sound (u : Uplink) : Prop where
  granted : Phase.subscribed.rank ≤ u.phase.rank → u.answered.subscribe = true
  complete : Phase.subscribed.rank ≤ u.phase.rank →
    (u.phase = .authorized ↔ u.answered.complete = true)

private theorem sound_of_phase {u : Uplink} (p : Phase) (phase : u.phase = p)
    (early : p.rank < Phase.subscribed.rank) : Sound u := by
  subst phase
  exact ⟨fun hr => absurd hr (Nat.not_le.mpr early), fun hr => absurd hr (Nat.not_le.mpr early)⟩

private theorem Sound.congr {u v : Uplink} (h : Sound u) (phase : v.phase = u.phase)
    (answered : v.answered = u.answered) : Sound v := by
  constructor
  · rw [phase, answered]
    exact h.granted
  · rw [phase, answered]
    exact h.complete

theorem promoted_rank (u : Uplink) : u.phase.rank ≤ u.promoted.phase.rank := by
  rw [promoted_eq]
  dsimp only
  split
  · cases u.phase <;> decide
  · exact Nat.le_refl _

private theorem promoted_sound {u : Uplink}
    (granted : Phase.subscribed.rank ≤ u.phase.rank → u.answered.subscribe = true)
    (authorized : u.phase = .authorized → u.answered.complete = true) : Sound u.promoted := by
  by_cases hp : u.phase = .subscribed
  · have hs := granted (by rw [hp])
    rw [promoted_eq, hp]
    cases hc : u.answered.complete <;> exact ⟨fun _ => hs, fun _ => by simp [hc]⟩
  · have hu : u.promoted = u := by
      rw [promoted_eq, beq_false_of_ne hp, Bool.and_false]
      rfl
    rw [hu]
    refine ⟨granted, fun hr => ⟨authorized, fun _ => ?_⟩⟩
    -- no other phase is left
    cases hq : u.phase with
    | authorized => rfl
    | subscribed => exact absurd hq hp
    | _ =>
      rw [hq] at hr
      exact absurd hr (by decide)

private theorem complete_of_answer {a b : Answered} (h : ∀ e, a.has e = true → b.has e = true)
    (ha : a.complete = true) : b.complete = true := by
  rw [Answered.complete_iff] at ha ⊢
  exact fun e => h e (ha e)

/-- Behind an answer an uplink is promoted if it can be: it has the answers from before besides. -/
theorem promoted_sound_of_answer {u : Uplink} (h : Sound u) {a : Answered}
    (more : ∀ e, u.answered.has e = true → a.has e = true) :
    Sound ({ u with answered := a } : Uplink).promoted := by
  apply promoted_sound
  · intro hr
    exact more .subscribe (h.granted hr)
  · intro hp
    have hr : Phase.subscribed.rank ≤ u.phase.rank := by
      rw [show u.phase = .authorized from hp]
      decide
    exact complete_of_answer more ((h.complete hr).mp hp)

private theorem heed_sound {u : Uplink} (h : Sound u) (n : Notice) : Sound (u.heed n) := by
  cases n with
  | granted s =>
    apply promoted_sound
    · intro _
      rfl
    · intro hp
      cases hp
  | configured => exact promoted_sound_of_answer h fun e he => by cases e <;> first | rfl | exact he
  | featured features =>
    exact promoted_sound_of_answer (h.congr rfl rfl : Sound { u with features })
      fun e he => by cases e <;> first | rfl | exact he
  | authorized => exact promoted_sound_of_answer h fun e he => by cases e <;> first | rfl | exact he
  | masked mask => exact h.congr rfl rfl
  | strange => exact promoted_sound_of_answer h fun e he => he
  | idle => exact h

/-- A notice never takes an uplink back. A second subscription of an authorized uplink would, if
the promotion behind it were not due at once. -/
theorem heed_rank {u : Uplink} (h : Sound u) (n : Notice) :
    u.phase.rank ≤ (u.heed n).phase.rank := by
  cases n with
  | granted s =>
    by_cases ha : u.phase = .authorized
    · have hr : Phase.subscribed.rank ≤ u.phase.rank := by
        rw [ha]
        decide
      have hc : u.answered.complete = true := (h.complete hr).mp ha
      have hc' : ({ u.answered with subscribe := true } : Answered).complete = true :=
        complete_of_answer (fun e he => by cases e <;> first | rfl | exact he) hc
      rw [heed, promoted_eq, ha]
      simp [hc']
    · have hle : u.phase.rank ≤ Phase.subscribed.rank := by
        cases hp : u.phase with
        | authorized => exact absurd hp ha
        | _ => decide
      exact Nat.le_trans hle (promoted_rank { u with
        sessionId := s.sessionId
        width := s.width
        answered := { u.answered with subscribe := true }
        phase := .subscribed })
  | configured => exact promoted_rank { u with answered := { u.answered with configure := true } }
  | featured features =>
    exact promoted_rank
      { u with features, answered := { u.answered with features := true } }
  | authorized => exact promoted_rank { u with answered := { u.answered with authorize := true } }
  | masked mask => exact Nat.le_refl _
  | strange => exact promoted_rank _
  | idle => exact Nat.le_refl _

private theorem heedAll_sound {u : Uplink} (h : Sound u) (ns : List Notice) :
    Sound (u.heedAll ns) := by
  induction ns generalizing u with
  | nil => exact h
  | cons n ns ih => exact ih (heed_sound h n)

private theorem handshake_sound (u : Uplink) (link : Link) : Sound (u.handshake link).uplink := by
  obtain ⟨hk, hp⟩ := handshake_heeds u link
  rcases hp with hp | hp
  · have hconnected : Sound (u.attachLink link).unlinked :=
      sound_of_phase .connected rfl (by decide)
    have ha := congrArg Knowledge.answered hk
    rw [knowledge_answered, knowledge_answered] at ha
    exact (heedAll_sound hconnected _).congr hp ha
  · exact sound_of_phase .disconnected hp (by decide)

private theorem run_sound {u : Uplink} (h : Sound u) : Sound u.run.uplink := by
  unfold run
  split
  · exact sound_of_phase .disconnected rfl (by decide)
  · dsimp only
    rw [(drain_eq u).1]
    exact h.congr rfl rfl

theorem step_sound {u : Uplink} (h : Sound u) (s : Step) : Sound (u.step s).1 := by
  cases s with
  | consume =>
    have hu := consume_unlinked u
    have hunlinked : Sound u.unlinked := h.congr rfl rfl
    have hs := heedAll_sound hunlinked (toldIn (u, .consume))
    rw [← hu] at hs
    exact hs.congr rfl rfl
  | handshake link =>
    dsimp only [step]
    exact handshake_sound u link
  | start dial =>
    cases dial with
    | opened link =>
      dsimp only [step]
      rw [start_opened]
      exact handshake_sound u link
    | failed reason => exact sound_of_phase .disconnected rfl (by decide)
    | expired => exact sound_of_phase .disconnected rfl (by decide)
  | line bytes =>
    rw [line_eq]
    split
    · exact heed_sound h _
    · exact h
  | attach miner =>
    change Sound (u.attach miner).2
    rw [attach_uplink]
    split
    · exact h.congr rfl rfl
    · exact h
  | setup =>
    obtain ⟨⟨carrier, hu⟩, -⟩ := writeAll_carrier u
      (Rpc.Setup.all u.settings.userAgent u.account)
    have hp := congrArg phase hu
    have ha := congrArg answered hu
    exact h.congr hp ha
  | write request =>
    obtain ⟨⟨carrier, hu⟩, -⟩ := write_carrier u request
    have hp := congrArg phase hu
    have ha := congrArg answered hu
    exact h.congr hp ha
  | run => exact run_sound h
  | connect link => exact sound_of_phase .connected rfl (by decide)
  | close => exact sound_of_phase .disconnected rfl (by decide)
  | stop => exact h.congr rfl rfl
  | turnAway => exact h.congr rfl rfl

theorem create_sound {settings : Settings} {account : String} {index : Nat} {u : Uplink}
    (created : create settings account index = .ok u) : Sound u := by
  obtain ⟨pool, rfl⟩ := eq_of_create created
  exact sound_of_phase .disconnected rfl (by decide)

theorem after_sound {u : Uplink} (h : Sound u) (steps : List Step) : Sound (u.after steps) := by
  induction steps generalizing u with
  | nil => exact h
  | cons s rest ih => exact ih (step_sound h s)

private theorem rank_subscribed_le_iff (p : Phase) :
    Phase.subscribed.rank ≤ p.rank ↔ p = .subscribed ∨ p = .authorized := by
  cases p <;> decide

/-- Of a new uplink and any steps: if it is subscribed or authorized, the pool has granted a
subscription, of the last one it has the width, and that is enough. It tells the width in just
these phases. Authorized, all exchanges are answered; subscribed, one of them is not. What has
been negotiated is what the configure request asks for. And no line takes it back, be it another
grant. -/
theorem phase_fits_history {settings : Settings} {account : String} {index : Nat} {u : Uplink}
    (created : create settings account index = .ok u) (steps : List Step) :
    ((u.after steps).phase = .subscribed ∨ (u.after steps).phase = .authorized →
      (u.after steps).answered.subscribe = true ∧ 6 ≤ (u.after steps).width ∧
        ∃ s, (((u.moments steps).flatMap toldIn).filterMap Notice.grant?).getLast? = some s ∧
          (u.after steps).width = s.width) ∧
    (∀ width, (u.after steps).width? = some width ↔
      ((u.after steps).phase = .subscribed ∨ (u.after steps).phase = .authorized) ∧
        (u.after steps).width = width) ∧
    ((u.after steps).phase = .authorized → ∀ e, (u.after steps).answered.has e = true) ∧
    ((u.after steps).phase = .subscribed → ∃ e, (u.after steps).answered.has e = false) ∧
    (u.after steps).negotiated.request = Rpc.Setup.configure ∧
    ∀ bytes, (u.after steps).phase.rank ≤ ((u.after steps).step (.line bytes)).1.phase.rank := by
  have sound := after_sound (create_sound created) steps
  have known := after_knowledge u steps
  rw [create_knowledge created] at known
  refine ⟨?_, ?_, ?_, ?_, ?_, ?_⟩
  · intro hp
    have hgranted := sound.granted ((rank_subscribed_le_iff _).mpr hp)
    have hanswered : (Knowledge.initial.learnAll
        ((u.moments steps).flatMap toldIn)).answered.subscribe = true := by
      rw [← known]
      exact hgranted
    obtain ⟨s, hs, -, hw⟩ := Knowledge.granted_of_learnAll _ hanswered
    rw [← known] at hw
    -- the grant is what some item has said, so it has been checked
    have hmem := List.mem_of_getLast? hs
    obtain ⟨n, hn, hg⟩ := List.mem_filterMap.mp hmem
    obtain ⟨m, -, hm⟩ := List.mem_flatMap.mp hn
    obtain ⟨item, hitem⟩ := exists_item_of_toldIn hm
    have hn' : n = .granted s := by
      cases n <;> cases hg
      rfl
    rw [hn'] at hitem
    have hleast : 6 ≤ s.width := Notice.leastWidth_le_of_ofItem hitem
    have hwidth : (u.after steps).width = s.width := hw
    exact ⟨hgranted, hwidth ▸ hleast, s, hs, hwidth⟩
  · intro width
    unfold width?
    rw [← rank_subscribed_le_iff]
    split <;> simp [*]
  · intro hp
    have hr := (rank_subscribed_le_iff _).mpr (Or.inr hp)
    exact (Answered.complete_iff _).mp ((sound.complete hr).mp hp)
  · intro hp
    have hr := (rank_subscribed_le_iff _).mpr (Or.inl hp)
    have hn : ¬ (u.after steps).answered.complete = true := by
      rw [← sound.complete hr, hp]
      decide
    rw [Answered.complete_iff] at hn
    simpa using hn
  · have hnegotiated : (u.after steps).negotiated = .requested := by
      have h := congrArg Knowledge.negotiated known
      rw [Knowledge.learnAll_negotiated] at h
      exact h
    rw [hnegotiated, Negotiated.request_requested]
  · intro bytes
    rw [line_eq]
    split
    · exact heed_rank sound _
    · exact Nat.le_refl _

def sampleAnswers : List Step :=
  .connect (sampleLink []) ::
    (samplePackets ++ [sampleSubscribe]).map fun p => .line (Wire.Packet.bytes p)

theorem phase_fits_history_of_sampleAnswers :
    ∃ u, create sampleSettings "account" 0 = .ok u ∧
      (u.after sampleAnswers).phase = .authorized ∧
      6 ≤ (u.after sampleAnswers).width ∧
      (u.after sampleAnswers).width? = some 8 ∧
      (∀ e, (u.after sampleAnswers).answered.has e = true) ∧
      Phase.authorized.rank ≤
        ((u.after sampleAnswers).step (.line sampleSubscribe.bytes)).1.phase.rank := by
  obtain ⟨u, created⟩ : ∃ u, create sampleSettings "account" 0 = .ok u := ⟨_, rfl⟩
  obtain ⟨hgranted, hwidth, hcomplete, -, -, hline⟩ := phase_fits_history created sampleAnswers
  have hphase : (u.after sampleAnswers).phase = .authorized := by
    cases created
    decide +kernel
  have height : (u.after sampleAnswers).width = 8 := by
    cases created
    decide +kernel
  have hback := hline sampleSubscribe.bytes
  rw [hphase] at hback
  exact ⟨u, created, hphase, (hgranted (Or.inr hphase)).2.1,
    (hwidth 8).mpr ⟨Or.inr hphase, height⟩, hcomplete hphase, hback⟩

end Uplink

end PoolUplink
