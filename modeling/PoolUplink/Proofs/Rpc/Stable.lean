import PoolUplink.Proofs.Json.Yields
import PoolUplink.Proofs.Rpc.Kinds
import PoolUplink.Proofs.Rpc.Normal

/-!
# Messages that have been read are normal

Whatever a line looks like, the message read off it is one that a line can hold in full, as far as
its numbers are. So writing it and reading that line gives it back, and the line that is written
stays the same from then on.
-/

set_option autoImplicit false
set_option relaxedAutoImplicit false

namespace PoolUplink.Rpc.Message

open PoolUplink.Json

variable {members : List (String × Value)}

private theorem Keeps.getD_null {name : String} {part : Option Value}
    (h : Keeps name members part) :
    (part.getD .null).settle = part.getD .null ∧
      (part.getD .null).depth ≤ Value.depthOfMembers members ∧ part ≠ some .null := by
  cases h with
  | nothing _ => exact ⟨rfl, Nat.zero_le _, nofun⟩
  | @kept v hv hne =>
    have hdepth : v.depth ≤ Value.depthOfMembers members :=
      Value.depthOfMembers_le_iff.mp (Nat.le_refl _) (name, v) hv
    refine ⟨Value.settle_settle v, Nat.le_trans (Value.depth_settle_le v) hdepth, ?_⟩
    intro hnull
    have hpresent := Value.present?_settle hne
    rw [Option.some.inj hnull] at hpresent
    cases hpresent

private theorem mem_optional {name : String} {part : Option Value} {x : String × Value}
    (h : x ∈ optional name part) : x.2 = part.getD .null := by
  cases part with
  | none => cases h
  | some v =>
    obtain rfl := List.mem_singleton.mp h
    rfl

private theorem member_of_ofValue? {v : Value} {m : Message} (h : ofValue? v = some m) :
    ∃ members, v = .object members ∧ m.method? ≠ some "" ∧
      (∀ part ∈ m.slots, ∃ name, Keeps name members part) ∧
      ∀ x ∈ m.members, (∃ s, x.2 = .string s) ∨
        ∃ name part, Keeps name members part ∧ x.2 = part.getD .null := by
  cases v with
  | object members =>
    refine ⟨members, rfl, ?_⟩
    rw [ofValue?] at h
    cases hr : asRequest? members with
    | some n =>
      rw [hr] at h
      cases h
      obtain ⟨-, id, method, params, rfl, kid, -, hne, kparams⟩ := asRequest?_eq_some_iff.mp hr
      refine ⟨fun hm => hne (Option.some.inj hm), fun part hpart => ?_, fun x hx => ?_⟩
      · obtain rfl := List.mem_singleton.mp hpart
        exact ⟨_, kid⟩
      · simp only [Message.members, List.mem_cons, List.not_mem_nil, or_false] at hx
        rcases hx with rfl | rfl | rfl
        · exact Or.inr ⟨_, _, kid, rfl⟩
        · exact Or.inl ⟨method, rfl⟩
        · exact Or.inr ⟨_, _, kparams, rfl⟩
    | none =>
      rw [hr] at h
      obtain ⟨-, id, result, error, rfl, kid, kresult, kerror⟩ := asResponse?_eq_some_iff.mp h
      refine ⟨(Option.some_ne_none _).symm, fun part hpart => ?_, fun x hx => ?_⟩
      · simp only [slots, List.mem_cons, List.not_mem_nil, or_false] at hpart
        rcases hpart with rfl | rfl | rfl
        · exact ⟨_, kid⟩
        · exact ⟨_, kresult⟩
        · exact ⟨_, kerror⟩
      · simp only [Message.members, List.cons_append, List.mem_cons, List.mem_append] at hx
        rcases hx with rfl | hx | hx
        · exact Or.inr ⟨_, _, kid, rfl⟩
        · exact Or.inr ⟨_, _, kresult, mem_optional hx⟩
        · exact Or.inr ⟨_, _, kerror, mem_optional hx⟩
  | _ => cases h

private theorem exists_value_of_ofLine {line : List UInt8} {m : Message}
    (decoded : ofLine line = .ok m) : ∃ v, ofValue? v = some m ∧ v.depth ≤ Value.depthLimit := by
  obtain ⟨rest, htakes, -⟩ := Takes.of_run decoded
  obtain ⟨v, hv, hread⟩ := Takes.of_filterMap htakes
  exact ⟨v, hv, Value.readTo_depth Value.depthLimit hread⟩

private theorem depth_of_ofLine {line : List UInt8} {m : Message} (decoded : ofLine line = .ok m) :
    (Value.object m.members).depth ≤ Value.depthLimit := by
  obtain ⟨v, hv, hdepth⟩ := exists_value_of_ofLine decoded
  obtain ⟨members, rfl, -, -, hmembers⟩ := member_of_ofValue? hv
  have hinner : Value.depthOfMembers members + 1 ≤ Value.depthLimit := hdepth
  have hall : Value.depthOfMembers m.members ≤ Value.depthOfMembers members := by
    apply Value.depthOfMembers_le_iff.mpr
    intro x hx
    rcases hmembers x hx with ⟨s, hs⟩ | ⟨name, part, hkeeps, hx⟩
    · rw [hs]
      exact Nat.zero_le _
    · rw [hx]
      exact hkeeps.getD_null.2.1
  rw [Value.depth]
  omega

private theorem normal_of_ofLine {line : List UInt8} {m : Message} (decoded : ofLine line = .ok m)
    (integral : (Value.object m.members).integral = true) : m.Normal := by
  obtain ⟨v, hv, -⟩ := exists_value_of_ofLine decoded
  obtain ⟨members, rfl, hmethod, hslots, hmembers⟩ := member_of_ofValue? hv
  refine ⟨fun hnull => ?_, hmethod, integral, fun x hx => ?_, depth_of_ofLine decoded⟩
  · obtain ⟨name, hkeeps⟩ := hslots _ hnull
    exact hkeeps.getD_null.2.2 rfl
  · rcases hmembers x hx with ⟨s, hs⟩ | ⟨name, part, hkeeps, hx⟩
    · rw [hs]
      rfl
    · rw [hx]
      exact hkeeps.getD_null.1

/-- Of a line that is a message, what is written of the message is nested no deeper than reading
goes. If all its numbers are whole and of 64 bits, the message is normal, the line that is written
of it is read as that very message, and reading and writing once more gives that very line. -/
theorem rewritten_line_stable {line : List UInt8} {m : Message} (decoded : ofLine line = .ok m) :
    (Value.object m.members).depth ≤ Value.depthLimit ∧
      ((Value.object m.members).integral = true →
        m.Normal ∧ ofLine m.toLine = .ok m ∧ (ofLine m.toLine).map toLine = .ok m.toLine) := by
  refine ⟨depth_of_ofLine decoded, fun integral => ?_⟩
  have normal := normal_of_ofLine decoded integral
  have back := ofLine_toLine normal
  refine ⟨normal, back, ?_⟩
  rw [back]
  rfl

theorem rewritten_line_stable_of_sampleLine :
    let m := response (some (.string "sub"))
      (some (.array [.object [("a", .ofNat 2), ("b", .ofNat 3)]])) none
    ofLine sampleLine = .ok m ∧
      m.toLine = Ascii.bytes
        "\x7b\"id\":\"sub\",\"result\":[\x7b\"a\":2,\"b\":3\x7d]\x7d\n" ∧
      ofLine m.toLine = .ok m := by
  intro m
  have decoded : ofLine sampleLine = .ok m := by decide +kernel
  have written : m.toLine = Ascii.bytes
      "\x7b\"id\":\"sub\",\"result\":[\x7b\"a\":2,\"b\":3\x7d]\x7d\n" := by decide +kernel
  have stable := (rewritten_line_stable decoded).2 (by decide)
  exact ⟨decoded, written, stable.2.1⟩

end PoolUplink.Rpc.Message
