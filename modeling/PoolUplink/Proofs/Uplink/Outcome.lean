import PoolUplink.Proofs.Uplink.Settlement

/-!
# What decides a handshake

The first handshake of an uplink over a link that takes its requests. It authorizes the uplink
exactly if the pool answers all exchanges before anything fatal, and otherwise closes it; what
comes behind the units that decide this leaves no trace.
-/

set_option autoImplicit false
set_option relaxedAutoImplicit false

namespace PoolUplink.Uplink

open PoolUplink.Wire (Item Reading Inbound Outbound Packet)

theorem create_answered {settings : Settings} {account : String} {index : Nat} {u : Uplink}
    (created : create settings account index = .ok u) : u.answered = .nothing := by
  obtain ⟨pool, rfl⟩ := eq_of_create created
  rfl

theorem completes_iff_of_nothing {u : Uplink} (ha : u.answered = .nothing)
    (us : List (Reading Item)) :
    u.Completes us ↔ (∀ x ∈ us, ¬ Fatal x) ∧ ∀ e, ∃ x ∈ us, Answers e x := by
  have hnone (e : Rpc.Setup.Exchange) : u.answered.has e = false := by
    rw [ha]
    cases e <;> rfl
  constructor
  · rintro ⟨hf, -, he⟩
    refine ⟨hf, fun e => ?_⟩
    rcases he e with h | h
    · rw [hnone e] at h
      cases h
    · exact h
  · rintro ⟨hf, he⟩
    exact ⟨hf, Or.inr (he .subscribe), fun e => Or.inr (he e)⟩

/-- A new uplink is authorized exactly if, for some `k`, none of the first `k` units is fatal and
they answer all exchanges. Otherwise it ends disconnected, its link dropped. Streams that agree on
units that decide this leave the same uplink, but for what is left to read of them. -/
theorem authorized_iff_all_answered {settings : Settings} {account : String} {index : Nat}
    {u : Uplink} (created : create settings account index = .ok u) (link : Link)
    (written : (u.attachLink link).writeSetup.result = .ok ()) :
    ((u.handshake link).uplink.phase = .authorized ↔
      ∃ k, (∀ x ∈ (Item.units link.inbound).take k, ¬ Fatal x) ∧
        ∀ e, ∃ x ∈ (Item.units link.inbound).take k, Answers e x) ∧
    ((u.handshake link).uplink.phase ≠ .authorized →
      (u.handshake link).uplink.phase = .disconnected ∧
        ∃ left, (u.handshake link).uplink.carrier = .dropped left) ∧
    ∀ (k : Nat) (other : Inbound),
      ((∃ x ∈ (Item.units link.inbound).take k, Fatal x) ∨
        ∀ e, ∃ x ∈ (Item.units link.inbound).take k, Answers e x) →
      (Item.units other).take k = (Item.units link.inbound).take k →
      (u.handshake { link with inbound := other }).uplink.withoutUnread =
        (u.handshake link).uplink.withoutUnread := by
  have ha : u.answered = .nothing := create_answered created
  have hcomplete := completes_iff_of_nothing (u := (u.attachLink link).unlinked) ha
  refine ⟨?_, handshake_closed, ?_⟩
  · rw [handshake_phase, and_iff_right written]
    exact exists_congr fun k => hcomplete _
  · intro k other hd hs
    refine handshake_congr ?_ hs
    by_cases hf : ∃ x ∈ (Item.units link.inbound).take k, Fatal x
    · exact Or.inl hf
    · refine Or.inr ((hcomplete _).mpr ⟨?_, hd.resolve_left hf⟩)
      intro x hx hfatal
      exact hf ⟨x, hx, hfatal⟩

def sampleSubscribe : Packet :=
  .line "\x7b\"id\":\"sub\",\"result\":[[],\"0a0b0c0d\",8]\x7d".toUTF8.toList
    (by decide +kernel) (by decide +kernel)

def sampleConfigure : Packet :=
  .line "\x7b\"id\":\"conf\",\"result\":true\x7d".toUTF8.toList
    (by decide +kernel) (by decide +kernel)

def sampleFeatures : Packet :=
  .line "\x7b\"id\":\"caps\",\"result\":[]\x7d".toUTF8.toList
    (by decide +kernel) (by decide +kernel)

def sampleAuthorize : Packet :=
  .line "\x7b\"id\":\"auth\",\"result\":true\x7d".toUTF8.toList
    (by decide +kernel) (by decide +kernel)

def samplePackets : List Packet :=
  [sampleSubscribe, sampleConfigure, sampleFeatures, sampleAuthorize]

def sampleSettings : Settings := { Settings.standard with pools := [⟨"pool", 3333⟩] }

def sampleLink (packets : List Packet) : Link :=
  ⟨.ofChunks [packets.flatMap Packet.bytes] .closed, .fresh none, none⟩

theorem all_answered_by_samplePackets :
    ∃ u, create sampleSettings "account" 0 = .ok u ∧
      (u.attachLink (sampleLink samplePackets)).writeSetup.result = .ok () ∧
      (u.handshake (sampleLink samplePackets)).uplink.phase = .authorized ∧
      ∃ k, (∀ x ∈ (Item.units (sampleLink samplePackets).inbound).take k, ¬ Fatal x) ∧
        ∀ e, ∃ x ∈ (Item.units (sampleLink samplePackets).inbound).take k, Answers e x := by
  obtain ⟨u, created⟩ : ∃ u, create sampleSettings "account" 0 = .ok u := ⟨_, rfl⟩
  have written : (u.attachLink (sampleLink samplePackets)).writeSetup.result = .ok () :=
    (writeSetup_attachLink u _).1.trans (Outbound.writeLines_of_unlimited rfl _)
  have authorized : (u.handshake (sampleLink samplePackets)).uplink.phase = .authorized := by
    cases created
    decide +kernel
  exact ⟨u, created, written, authorized,
    (authorized_iff_all_answered created _ written).1.mp authorized⟩

end PoolUplink.Uplink
