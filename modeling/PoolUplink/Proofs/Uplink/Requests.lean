import PoolUplink.Proofs.Rpc.Normal
import PoolUplink.Proofs.Uplink.Outcome
import PoolUplink.Proofs.Uplink.Sent

/-!
# Requests are read back

The lines of normal messages are read as those lines, whatever the chunks, and each of them as its
message. The setup requests are normal whatever the agent's name and the account are, so what a
handshake writes is four lines that state the four requests.
-/

set_option autoImplicit false
set_option relaxedAutoImplicit false

namespace PoolUplink

open PoolUplink.Json (Value)
open PoolUplink.Rpc (Message)
open PoolUplink.Wire (Ending Inbound Item Outbound)

namespace Rpc.Setup

private theorem normal_named {id method : String} {params : Value} (hmethod : method ≠ "")
    (integral : params.integral = true) (settled : params.settle = params)
    (nested : params.depth < Value.depthLimit) : (Message.named id method params).Normal where
  present := by simp [Message.named, Message.slots]
  named := by simpa [Message.named, Message.method?] using hmethod
  integral := by
    simp [Message.named, Message.members, Value.integral, Value.integralMembers, integral]
  settled := by simp [Message.named, Message.members, Value.settle, settled]
  nested := by
    have hdepth : (Value.object (Message.named id method params).members).depth =
        params.depth + 1 := by
      simp [Message.named, Message.members, Value.depth, Value.depthOfMembers]
    rw [hdepth]
    exact nested

private theorem normal_of_mem_all {userAgent account : String} {m : Message}
    (h : m ∈ all userAgent account) : m.Normal := by
  simp only [all, List.mem_cons, List.not_mem_nil, or_false] at h
  rcases h with rfl | rfl | rfl | rfl
  · exact normal_named (by decide) rfl rfl (show 1 < 127 by decide)
  · exact normal_named (by decide) (by decide) (by decide) (by decide)
  · exact normal_named (by decide) (by decide) (by decide) (by decide)
  · exact normal_named (by decide) rfl rfl (show 1 < 127 by decide)

end Rpc.Setup

namespace Uplink

/-- Normal messages, written one behind the other and sent in any chunks, are read as their lines,
one each, and each line as its message. In particular, whatever the agent's name and the account
are, all that a pool receives of a handshake is four lines, as far as it accepts bytes: they are
read as four lines, and these as the four setup requests. -/
theorem requests_read_back :
    (∀ (ms : List Message) (chunks : List (List UInt8)) (ending : Ending),
      (∀ m ∈ ms, m.Normal) → chunks.flatten = ms.flatMap Message.toLine →
        Item.units (.ofChunks chunks ending) =
            ms.map (fun m => .got (.line m.toLine)) ++ [ending.reading .disconnected] ∧
          ∀ m ∈ ms, Message.ofLine m.toLine = .ok m) ∧
    ∀ (u : Uplink) (inbound : Inbound) (room : Option Nat) (peer : Option Peer),
      ∃ (left : Link) (sub conf caps auth : List UInt8),
        (u.handshake ⟨inbound, .fresh room, peer⟩).uplink.carrier.link? = some left ∧
        left.outbound.received = Outbound.accepted room (sub ++ conf ++ caps ++ auth) ∧
        (∀ (chunks : List (List UInt8)) (ending : Ending),
          chunks.flatten = sub ++ conf ++ caps ++ auth →
            Item.units (.ofChunks chunks ending) =
              [.got (.line sub), .got (.line conf), .got (.line caps), .got (.line auth),
                ending.reading .disconnected]) ∧
        Message.ofLine sub = .ok (.request (some (.string "sub")) "mining.subscribe"
          (.array [.string u.settings.userAgent])) ∧
        Message.ofLine conf = .ok (.request (some (.string "conf")) "mining.configure"
          (.array [.array [.string "version-rolling"],
            .object [("version-rolling.mask", .string "ffffffff"),
              ("version-rolling.min-bit-count", .number (.whole 0 (by decide)))]])) ∧
        Message.ofLine caps = .ok (.request (some (.string "caps")) "agent.get_capabilities"
          (.array [.array [.string "verrol"]])) ∧
        Message.ofLine auth = .ok (.request (some (.string "auth")) "mining.authorize"
          (.array [.string u.account, .string ""])) := by
  refine ⟨fun ms chunks ending normal cut => ?_, fun u inbound room peer => ?_⟩
  · exact ⟨Message.units_of_lines normal ending cut,
      fun m hm => Message.ofLine_toLine (normal m hm)⟩
  let requests := Rpc.Setup.all u.settings.userAgent u.account
  have normal : ∀ m ∈ requests, m.Normal := fun m hm => Rpc.Setup.normal_of_mem_all hm
  have decoded : ∀ m ∈ requests, Message.ofLine m.toLine = .ok m :=
    fun m hm => Message.ofLine_toLine (normal m hm)
  obtain ⟨left, hleft, hreceived⟩ := handshake_received u inbound room peer
  have hlines : u.setupLines.flatten =
      (Rpc.Setup.subscribe u.settings.userAgent).toLine ++ Rpc.Setup.configure.toLine ++
        Rpc.Setup.features.toLine ++ (Rpc.Setup.authorize u.account).toLine := by
    simp [setupLines, Rpc.Setup.all]
  refine ⟨left, (Rpc.Setup.subscribe u.settings.userAgent).toLine, Rpc.Setup.configure.toLine,
    Rpc.Setup.features.toLine, (Rpc.Setup.authorize u.account).toLine, hleft, ?_, ?_, ?_⟩
  · rw [hreceived, hlines]
  · intro chunks ending cut
    have hcut : chunks.flatten = requests.flatMap Message.toLine := by
      rw [cut, ← hlines]
      exact (List.flatMap_def).symm
    exact Message.units_of_lines normal ending hcut
  · exact ⟨decoded _ (.head _), decoded _ (.tail _ (.head _)),
      decoded _ (.tail _ (.tail _ (.head _))),
      decoded _ (.tail _ (.tail _ (.tail _ (.head _))))⟩

/-- A request whose texts hold what a line may not hold as it is, and a response with a `null`
inside, which does not count as an absent part. -/
def sampleMessages : List Message :=
  [.request (some (.number (.whole (-9223372036854775808) (by decide)))) "a\n\"\\"
      (.object [("", .array []), ("\x01\x7f", .string "\u2028\r")]),
    .response none (some (.bool false))
      (some (.array [.number (.whole 18446744073709551615 (by decide)), .null]))]

private theorem normal_of_mem_sampleMessages : ∀ m ∈ sampleMessages, m.Normal := by
  intro m hm
  simp only [sampleMessages, List.mem_cons, List.not_mem_nil, or_false] at hm
  rcases hm with rfl | rfl
  · exact ⟨by decide, by decide, by decide, by decide, by decide⟩
  · exact ⟨by decide, by decide, by decide, by decide, by decide⟩

theorem requests_read_back_of_sampleMessages :
    let bytes := sampleMessages.flatMap Message.toLine
    (∀ m ∈ sampleMessages, m.Normal) ∧
      [bytes.take 20, [], bytes.drop 20].flatten = bytes ∧
      Item.units (.ofChunks [bytes.take 20, [], bytes.drop 20] .closed) =
        sampleMessages.map (fun m => .got (.line m.toLine)) ++ [.failed .disconnected] ∧
      (∀ m ∈ sampleMessages, Message.ofLine m.toLine = .ok m) ∧
      ∃ u, create { sampleSettings with userAgent := "\n\x7f\"" } "\\\x00" 0 = .ok u ∧
        ∃ left sub conf caps auth,
          (u.handshake (sampleLink [])).uplink.carrier.link? = some left ∧
          Item.units (.ofChunks [left.outbound.received] .closed) =
            [.got (.line sub), .got (.line conf), .got (.line caps), .got (.line auth),
              .failed .disconnected] ∧
          Message.ofLine sub = .ok (.request (some (.string "sub")) "mining.subscribe"
            (.array [.string "\n\x7f\""])) ∧
          Message.ofLine auth = .ok (.request (some (.string "auth")) "mining.authorize"
            (.array [.string "\\\x00", .string ""])) := by
  intro bytes
  have cut : [bytes.take 20, [], bytes.drop 20].flatten = bytes := by
    simp [List.take_append_drop]
  obtain ⟨hunits, hdecoded⟩ := requests_read_back.1 sampleMessages _ .closed
    normal_of_mem_sampleMessages cut
  refine ⟨normal_of_mem_sampleMessages, cut, hunits, hdecoded, ?_⟩
  obtain ⟨u, created⟩ :
      ∃ u, create { sampleSettings with userAgent := "\n\x7f\"" } "\\\x00" 0 = .ok u := ⟨_, rfl⟩
  obtain ⟨left, sub, conf, caps, auth, hleft, hreceived, hlines, hsub, -, -, hauth⟩ :=
    requests_read_back.2 u (sampleLink []).inbound none none
  have hall : [left.outbound.received].flatten = sub ++ conf ++ caps ++ auth := by
    rw [List.flatten_singleton, hreceived]
    rfl
  refine ⟨u, created, left, sub, conf, caps, auth, hleft, hlines _ .closed hall, ?_, ?_⟩
  · cases created
    exact hsub
  · cases created
    exact hauth

end Uplink

end PoolUplink
