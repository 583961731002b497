import PoolUplink.Proofs.Uplink.Delivery

/-!
# What a pool receives of a handshake

A handshake writes the setup requests and nothing else. Over a link that is used for the first
time the pool receives their lines, one behind the other, as far as it accepts bytes; closing the
uplink afterwards adds none.
-/

set_option autoImplicit false
set_option relaxedAutoImplicit false

namespace PoolUplink

open PoolUplink.Wire (Inbound Outbound)

theorem Rpc.Message.toLine_ne_nil (m : Rpc.Message) : m.toLine ≠ [] :=
  List.append_ne_nil_of_right_ne_nil _ (List.cons_ne_nil _ _)

private theorem Carrier.link?_withoutUnread (c : Carrier) :
    c.withoutUnread.link? = c.link?.map Link.withoutUnread := by
  cases c <;> rfl

namespace Uplink

private theorem setupLines_delivers (u : Uplink) (room : Option Nat) :
    Outbound.Delivers room u.setupLines.flatten ((Outbound.fresh room).writeLines u.setupLines).2 ∧
      (((Outbound.fresh room).writeLines u.setupLines).1 = .ok () ↔
        Outbound.Fits room u.setupLines.flatten) := by
  have nonempty : ∀ line ∈ u.setupLines, line ≠ [] := by
    intro line hline
    obtain ⟨request, -, rfl⟩ := List.mem_map.mp hline
    exact request.toLine_ne_nil
  have nothing : Outbound.Fits room [] := fun n _ => Nat.zero_le n
  exact Outbound.writeLines_delivers (Outbound.fresh_delivers room) nothing nonempty

theorem writeSetup_ok_iff (u : Uplink) (inbound : Inbound) (room : Option Nat)
    (peer : Option Peer) :
    (u.attachLink ⟨inbound, .fresh room, peer⟩).writeSetup.result = .ok () ↔
      Outbound.Fits room u.setupLines.flatten := by
  rw [(writeSetup_attachLink u _).1]
  exact (u.setupLines_delivers room).2

theorem handshake_received (u : Uplink) (inbound : Inbound) (room : Option Nat)
    (peer : Option Peer) :
    ∃ left, (u.handshake ⟨inbound, .fresh room, peer⟩).uplink.carrier.link? = some left ∧
      left.outbound.received = Outbound.accepted room u.setupLines.flatten := by
  let link : Link := ⟨inbound, .fresh room, peer⟩
  have sent := (u.setupLines_delivers room).1
  have closed := Outbound.shutdown_delivers sent
  by_cases written : (u.attachLink link).writeSetup.result = .ok ()
  · have hcarrier := congrArg Uplink.carrier (handshake_of_written written)
    rw [withoutUnread_carrier] at hcarrier
    have hlink := congrArg Carrier.link? hcarrier
    rw [Carrier.link?_withoutUnread] at hlink
    dsimp only at hlink
    split at hlink
    · obtain ⟨left, hleft, hsent⟩ := Option.map_eq_some_iff.mp hlink
      refine ⟨left, hleft, ?_⟩
      exact (congrArg (fun l => l.outbound.received) hsent).trans sent.received
    · obtain ⟨left, hleft, hsent⟩ := Option.map_eq_some_iff.mp hlink
      refine ⟨left, hleft, ?_⟩
      exact (congrArg (fun l => l.outbound.received) hsent).trans closed.received
  · rw [handshake_of_refused written]
    exact ⟨_, rfl, closed.received⟩

end Uplink

end PoolUplink
