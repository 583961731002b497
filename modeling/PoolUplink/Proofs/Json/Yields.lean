import PoolUplink.Proofs.Json.Loops
import PoolUplink.Proofs.Json.Settle

/-!
# What a reader can yield

A property of all results of a reader, whatever its input is. The loops over items and members
hand it on from one item or member to all of them. So a value that is read is nested no deeper than
its reader goes.
-/

set_option autoImplicit false
set_option relaxedAutoImplicit false

namespace PoolUplink.Json

/-- Whatever a reader takes off its input has the property. -/
def Yields {α : Type} (r : Reader α) (P : α → Prop) : Prop :=
  ∀ ⦃input : List UInt8⦄ ⦃result : α⦄ ⦃rest : List UInt8⦄, Takes (r input) result rest → P result

namespace Yields

variable {α β : Type}

private theorem map {r : Reader α} {P : α → Prop} {Q : β → Prop} (h : Yields r P) (f : α → β)
    (hf : ∀ a, P a → Q (f a)) : Yields (r.map f) Q := by
  intro input result rest htakes
  obtain ⟨a, rfl, ha⟩ := Takes.of_map htakes
  exact hf a (h ha)

private theorem items {item : Reader α} {P : α → Prop} (h : Yields item P) :
    Yields (Reader.items item) fun out => ∀ a ∈ out, P a := by
  have hloop {input rest : List UInt8} {as : List α} (hread : ItemsRead item input as rest) :
      ∀ a ∈ as, P a := by
    induction hread with
    | last hitem _ => exact List.forall_mem_singleton.mpr (h hitem)
    | more hitem _ _ ih => exact List.forall_mem_cons.mpr ⟨h hitem, ih⟩
  intro input as rest htakes
  rcases Takes.of_items htakes with ⟨rfl, -⟩ | ⟨b, tail, -, -, hread⟩
  · exact List.forall_mem_nil P
  · exact hloop hread

private theorem members {member : α → String → Reader α} {start : α} {P : α → Prop}
    (hstart : P start) (h : ∀ state name, P state → Yields (member state name) P) :
    Yields (Reader.members member start) P := by
  have hloop {state out : α} {input rest : List UInt8}
      (hread : MembersRead member state input out rest) (hstate : P state) : P out := by
    induction hread with
    | last _ hmember _ => exact h _ _ hstate hmember
    | more _ hmember _ _ ih => exact ih (h _ _ hstate hmember)
  intro input out rest htakes
  rcases Takes.of_members htakes with ⟨rfl, -⟩ | ⟨b, tail, -, -, hread⟩
  · exact hstart
  · exact hloop hread hstart

private theorem afterColon {r : Reader α} {P : α → Prop} (h : Yields r P) :
    Yields (Reader.afterColon r) P := by
  intro input result rest htakes
  obtain ⟨tail, -, hr⟩ := Takes.of_afterColon htakes
  exact h hr

private theorem refuse (fault : Fault) (P : α → Prop) : Yields (Reader.refuse fault) P := by
  intro input result rest htakes
  obtain ⟨_, htakes⟩ := htakes
  cases htakes

end Yields

namespace Value

variable {array : Reader (List Value)} {object : Reader (List (String × Value))}

private theorem readWith_depth {n : Nat}
    (harray : Yields array fun items => depthOfItems items + 1 ≤ n)
    (hobject : Yields object fun members => depthOfMembers members + 1 ≤ n) :
    Yields (readWith array object) fun v => v.depth ≤ n := by
  intro input v rest htakes
  obtain ⟨b, tail, -, hspelled⟩ := exists_spelled htakes
  cases hspelled with
  | array h => exact harray h
  | object h => exact hobject h
  | string _ | null _ | yes _ | no _ | number _ _ => exact Nat.zero_le n

theorem readTo_depth (n : Nat) : Yields (readTo n) fun v => v.depth ≤ n := by
  induction n with
  | zero => exact readWith_depth (.refuse _ _) (.refuse _ _)
  | succ n ih =>
    apply readWith_depth
    · intro input items rest htakes
      exact Nat.succ_le_succ (depthOfItems_le_iff.mpr (ih.items htakes))
    · have hmembers : Yields (Reader.members (member (readTo n)) [])
          fun members => ∀ m ∈ members, m.2.depth ≤ n := by
        refine .members (fun m hm => absurd hm List.not_mem_nil) fun before name hbefore => ?_
        exact .afterColon (ih.map _ fun v hv => List.forall_mem_cons.mpr ⟨hv, hbefore⟩)
      refine hmembers.map List.reverse fun members h => Nat.succ_le_succ ?_
      exact depthOfMembers_le_iff.mpr fun m hm => h m (List.mem_reverse.mp hm)

end Value

end PoolUplink.Json
