import Mathlib.Data.List.Induction
import Mathlib.Data.String.Basic
import PoolUplink.Json.Value

/-!
# The normal form of values

Placing members one by one keeps them in strict order of their names, and members in strict order
stay as they are. So the normal form of a value is its own normal form. It is nested no deeper
than the value, and `null` only if the value is.
-/

set_option autoImplicit false
set_option relaxedAutoImplicit false

namespace PoolUplink.Json.Value

section Members

variable {α : Type}

/-- Members in the order of their names, none of them twice. -/
def InOrder (members : List (String × α)) : Prop :=
  members.Pairwise fun m n => m.1 < n.1

private theorem mem_of_mem_place {name : String} {v : α} {members : List (String × α)}
    {m : String × α} (h : m ∈ place name v members) : m = (name, v) ∨ m ∈ members := by
  fun_induction place name v members with
  | case1 => exact Or.inl (List.mem_singleton.mp h)
  | case2 other w rest hlt => exact List.mem_cons.mp h
  | case3 w rest hlt =>
    rcases List.mem_cons.mp h with h | h
    · exact Or.inl h
    · exact Or.inr (List.mem_cons_of_mem _ h)
  | case4 other w rest hlt hne ih =>
    rcases List.mem_cons.mp h with h | h
    · exact Or.inr (h ▸ List.mem_cons_self)
    · exact (ih h).imp_right (List.mem_cons_of_mem _)

private theorem place_inOrder (name : String) (v : α) {members : List (String × α)}
    (h : InOrder members) : InOrder (place name v members) := by
  fun_induction place name v members with
  | case1 => exact List.pairwise_singleton _ _
  | case2 other w rest hlt =>
    have hrest := (List.pairwise_cons.mp h).1
    refine List.pairwise_cons.mpr ⟨fun m hm => ?_, h⟩
    rcases List.mem_cons.mp hm with rfl | hm
    · exact hlt
    · exact lt_trans hlt (hrest m hm)
  | case3 w rest hlt => exact List.pairwise_cons.mpr (List.pairwise_cons.mp h)
  | case4 other w rest hlt hne ih =>
    obtain ⟨hfirst, hrest⟩ := List.pairwise_cons.mp h
    refine List.pairwise_cons.mpr ⟨fun m hm => ?_, ih hrest⟩
    rcases mem_of_mem_place hm with rfl | hm
    · exact lt_of_le_of_ne (not_lt.mp hlt) (Ne.symm hne)
    · exact hfirst m hm

private theorem place_of_lt {name : String} (v : α) {members : List (String × α)}
    (h : ∀ m ∈ members, m.1 < name) : place name v members = members ++ [(name, v)] := by
  induction members with
  | nil => rfl
  | cons m rest ih =>
    obtain ⟨hm, hrest⟩ := List.forall_mem_cons.mp h
    rw [place, if_neg (not_lt.mpr (le_of_lt hm)), if_neg (ne_of_gt hm), ih hrest]
    rfl

private theorem sortMembers_append (members : List (String × α)) (m : String × α) :
    sortMembers (members ++ [m]) = place m.1 m.2 (sortMembers members) := by
  rw [sortMembers, List.foldl_append]
  rfl

private theorem sortMembers_inOrder (members : List (String × α)) :
    InOrder (sortMembers members) := by
  induction members using List.reverseRecOn with
  | nil => exact List.Pairwise.nil
  | append_singleton members m ih =>
    rw [sortMembers_append]
    exact place_inOrder m.1 m.2 ih

private theorem mem_of_mem_sortMembers {members : List (String × α)} {m : String × α}
    (h : m ∈ sortMembers members) : m ∈ members := by
  induction members using List.reverseRecOn with
  | nil => exact h
  | append_singleton members n ih =>
    rw [sortMembers_append] at h
    rcases mem_of_mem_place h with rfl | h
    · exact List.mem_append_right _ (List.mem_singleton_self _)
    · exact List.mem_append_left _ (ih h)

private theorem sortMembers_of_inOrder {members : List (String × α)} (h : InOrder members) :
    sortMembers members = members := by
  induction members using List.reverseRecOn with
  | nil => rfl
  | append_singleton members m ih =>
    obtain ⟨hfront, -, hlast⟩ := List.pairwise_append.mp h
    rw [sortMembers_append, ih hfront]
    exact place_of_lt m.2 fun n hn => hlast n hn m (List.mem_singleton_self m)

end Members

private theorem settleMembers_of_settled {members : List (String × Value)}
    (h : ∀ m ∈ members, m.2.settle = m.2) : settleMembers members = members := by
  induction members with
  | nil => rfl
  | cons m rest ih =>
    obtain ⟨hm, hrest⟩ := List.forall_mem_cons.mp h
    rw [settleMembers, hm, ih hrest]

mutual

theorem settle_settle : (v : Value) → v.settle.settle = v.settle
  | null => rfl
  | bool _ => rfl
  | number _ => rfl
  | string _ => rfl
  | array items => congrArg array (settleItems_settleItems items)
  | object members => by
    have hsettled : ∀ m ∈ sortMembers (settleMembers members), m.2.settle = m.2 :=
      fun m hm => settle_of_mem_settleMembers members m (mem_of_mem_sortMembers hm)
    rw [settle, settle, settleMembers_of_settled hsettled,
      sortMembers_of_inOrder (sortMembers_inOrder _)]

private theorem settleItems_settleItems : (items : List Value) →
    settleItems (settleItems items) = settleItems items
  | [] => rfl
  | v :: rest => congrArg₂ List.cons (settle_settle v) (settleItems_settleItems rest)

private theorem settle_of_mem_settleMembers : (members : List (String × Value)) →
    ∀ m ∈ settleMembers members, m.2.settle = m.2
  | [], _, h => nomatch h
  | (name, v) :: rest, m, h => by
    rcases List.mem_cons.mp h with rfl | h
    · exact settle_settle v
    · exact settle_of_mem_settleMembers rest m h

end

theorem present?_settle {v : Value} (present : v ≠ .null) :
    v.settle.present? = some v.settle := by
  cases v with
  | null => exact absurd rfl present
  | bool b => rfl
  | number n => rfl
  | string s => rfl
  | array items => rfl
  | object members => rfl

theorem depthOfMembers_le_iff {members : List (String × Value)} {n : Nat} :
    depthOfMembers members ≤ n ↔ ∀ m ∈ members, m.2.depth ≤ n := by
  induction members with
  | nil => simp [depthOfMembers]
  | cons m rest ih =>
    rw [depthOfMembers, Nat.max_le, ih, List.forall_mem_cons]

theorem depthOfItems_le_iff {items : List Value} {n : Nat} :
    depthOfItems items ≤ n ↔ ∀ v ∈ items, v.depth ≤ n := by
  induction items with
  | nil => simp [depthOfItems]
  | cons v rest ih => rw [depthOfItems, Nat.max_le, ih, List.forall_mem_cons]

mutual

theorem depth_settle_le : (v : Value) → v.settle.depth ≤ v.depth
  | null => Nat.le_refl _
  | bool _ => Nat.le_refl _
  | number _ => Nat.le_refl _
  | string _ => Nat.le_refl _
  | array items => Nat.succ_le_succ (depthOfItems_settleItems_le items)
  | object members => by
    have hsettled := depthOfMembers_le_iff.mp (depthOfMembers_settleMembers_le members)
    have hsorted : depthOfMembers (sortMembers (settleMembers members)) ≤
        depthOfMembers members :=
      depthOfMembers_le_iff.mpr fun m hm => hsettled m (mem_of_mem_sortMembers hm)
    rw [settle, depth, depth]
    omega

private theorem depthOfItems_settleItems_le : (items : List Value) →
    depthOfItems (settleItems items) ≤ depthOfItems items
  | [] => Nat.le_refl _
  | v :: rest => by
    have hv := depth_settle_le v
    have hrest := depthOfItems_settleItems_le rest
    rw [settleItems, depthOfItems, depthOfItems]
    omega

private theorem depthOfMembers_settleMembers_le : (members : List (String × Value)) →
    depthOfMembers (settleMembers members) ≤ depthOfMembers members
  | [] => Nat.le_refl _
  | (name, v) :: rest => by
    have hv := depth_settle_le v
    have hrest := depthOfMembers_settleMembers_le rest
    rw [settleMembers, depthOfMembers, depthOfMembers]
    omega

end

end PoolUplink.Json.Value
