import PoolUplink.Proofs.Json.Takes

/-!
# What a reader has taken

The converse of putting readers together: a composed reader that has taken something did so through
its parts. For the loops over items and members this is an account of every item or member that
was read, with what came behind it.
-/

set_option autoImplicit false
set_option relaxedAutoImplicit false

namespace PoolUplink.Json

open PoolUplink.Json.Ascii

variable {α β : Type} {input rest : List UInt8} {result : α}

namespace Takes

private theorem of_onByte
    {f : (b : UInt8) → (rest : List UInt8) → Except Fault (Step α (b :: rest))}
    (h : Takes (Reader.onByte f input) result rest) :
    ∃ b tail, skipSpace input = b :: tail ∧ Takes (f b tail) result rest := by
  obtain ⟨shorter, h⟩ := h
  unfold Reader.onByte at h
  split at h
  · cases h
  · rename_i b tail hspace
    refine ⟨b, tail, hspace, ?_⟩
    split at h
    · cases h
    · rename_i s hs
      cases h
      exact ⟨_, hs⟩

theorem of_map {r : Reader β} {f : β → α} (h : Takes (r.map f input) result rest) :
    ∃ x, result = f x ∧ Takes (r input) x rest := by
  obtain ⟨shorter, h⟩ := h
  unfold Reader.map at h
  split at h
  · rename_i s hs
    cases h
    exact ⟨s.result, rfl, _, hs⟩
  · cases h

theorem of_filterMap {r : Reader β} {f : β → Option α}
    (h : Takes (r.filterMap f input) result rest) :
    ∃ x, f x = some result ∧ Takes (r input) x rest := by
  obtain ⟨shorter, h⟩ := h
  unfold Reader.filterMap at h
  split at h
  · cases h
  · rename_i s hs
    split at h
    · rename_i hf
      cases h
      exact ⟨s.result, hf, _, hs⟩
    · cases h

theorem of_afterColon {r : Reader α} (h : Takes (Reader.afterColon r input) result rest) :
    ∃ tail, Takes (pastColon input) () tail ∧ Takes (r tail) result rest := by
  obtain ⟨shorter, h⟩ := h
  unfold Reader.afterColon at h
  split at h
  · cases h
  · rename_i c hc
    split at h
    · cases h
    · rename_i s hs
      cases h
      exact ⟨c.rest, ⟨_, hc⟩, _, hs⟩

theorem of_run {r : Reader α} (h : r.run input = .ok result) :
    ∃ rest, Takes (r input) result rest ∧ skipSpace rest = [] := by
  unfold Reader.run at h
  split at h
  · cases h
  · rename_i s hs
    split at h
    · rename_i hblank
      cases h
      exact ⟨s.rest, ⟨_, hs⟩, List.isEmpty_iff.mp hblank⟩
    · cases h

end Takes

/-- The items that were read, each followed by a comma or, the last one, by a bracket. -/
inductive ItemsRead (item : Reader α) : List UInt8 → List α → List UInt8 → Prop
  | last {input tail rest : List UInt8} {a : α} : Takes (item input) a tail →
      skipSpace tail = closeBracket :: rest → ItemsRead item input [a] rest
  | more {input tail next rest : List UInt8} {a : α} {as : List α} : Takes (item input) a tail →
      skipSpace tail = comma :: next → ItemsRead item next as rest →
      ItemsRead item input (a :: as) rest

private theorem itemsRead_of_itemsOn {item : Reader α} {before out : List α}
    (h : Reader.itemsOn item before input = .ok (out, rest)) :
    ∃ as, out = before.reverse ++ as ∧ ItemsRead item input as rest := by
  fun_induction Reader.itemsOn item before input with
  | case1 => cases h
  | case2 => cases h
  | case3 before input s hitem tail hspace =>
    cases h
    exact ⟨[s.result], List.reverse_cons, .last ⟨_, hitem⟩ hspace⟩
  | case4 before input s hitem tail hspace _ ih =>
    obtain ⟨as, hout, hread⟩ := ih h
    refine ⟨s.result :: as, ?_, .more ⟨_, hitem⟩ hspace hread⟩
    rw [hout, List.reverse_cons, List.append_assoc, List.singleton_append]
  | case5 => cases h

theorem ItemsRead.itemsOn {item : Reader α} {as : List α} (h : ItemsRead item input as rest)
    (before : List α) : Reader.itemsOn item before input = .ok (before.reverse ++ as, rest) := by
  induction h generalizing before with
  | last hitem hspace =>
    rw [Takes.itemsOn_step before hitem hspace, if_pos rfl, List.reverse_cons]
  | more hitem hspace _ ih =>
    rw [Takes.itemsOn_step before hitem hspace, if_neg (by decide), if_pos rfl, ih,
      List.reverse_cons, List.append_assoc, List.singleton_append]

/-- The members that were read and what became of the state, each followed by a comma or, the
last one, by a brace. -/
inductive MembersRead (member : α → String → Reader α) :
    α → List UInt8 → α → List UInt8 → Prop
  | last {state out : α} {input behind tail rest : List UInt8} {name : String} :
      Takes (Reader.name input) name behind → Takes (member state name behind) out tail →
      skipSpace tail = closeBrace :: rest → MembersRead member state input out rest
  | more {state between out : α} {input behind tail next rest : List UInt8} {name : String} :
      Takes (Reader.name input) name behind → Takes (member state name behind) between tail →
      skipSpace tail = comma :: next → MembersRead member between next out rest →
      MembersRead member state input out rest

private theorem membersRead_of_membersOn {member : α → String → Reader α} {state out : α}
    (h : Reader.membersOn member state input = .ok (out, rest)) :
    MembersRead member state input out rest := by
  fun_induction Reader.membersOn member state input with
  | case1 => cases h
  | case2 => cases h
  | case3 => cases h
  | case4 state input n hname s hmember tail hspace =>
    cases h
    exact .last ⟨_, hname⟩ ⟨_, hmember⟩ hspace
  | case5 state input n hname s hmember tail hspace _ ih =>
    exact .more ⟨_, hname⟩ ⟨_, hmember⟩ hspace (ih h)
  | case6 => cases h

theorem MembersRead.membersOn {member : α → String → Reader α} {state out : α}
    (h : MembersRead member state input out rest) :
    Reader.membersOn member state input = .ok (out, rest) := by
  induction h with
  | last hname hmember hspace => rw [Takes.membersOn_step hname hmember hspace, if_pos rfl]
  | more hname hmember hspace _ ih =>
    rw [Takes.membersOn_step hname hmember hspace, if_neg (by decide), if_pos rfl, ih]

namespace Takes

theorem of_items {item : Reader α} {as : List α} (h : Takes (Reader.items item input) as rest) :
    (as = [] ∧ skipSpace input = closeBracket :: rest) ∨
      ∃ b tail, skipSpace input = b :: tail ∧ b ≠ closeBracket ∧ ItemsRead item input as rest := by
  obtain ⟨shorter, h⟩ := h
  unfold Reader.items at h
  split at h
  · cases h
  · rename_i b tail hspace
    split at h
    · rename_i hb
      cases h
      exact .inl ⟨rfl, hb ▸ hspace⟩
    · rename_i hb
      split at h
      · cases h
      · rename_i hitems
        cases h
        obtain ⟨as, rfl, hread⟩ := itemsRead_of_itemsOn hitems
        exact .inr ⟨b, tail, hspace, hb, hread⟩

theorem of_members {member : α → String → Reader α} {start out : α}
    (h : Takes (Reader.members member start input) out rest) :
    (out = start ∧ skipSpace input = closeBrace :: rest) ∨
      ∃ b tail, skipSpace input = b :: tail ∧ b ≠ closeBrace ∧
        MembersRead member start input out rest := by
  obtain ⟨shorter, h⟩ := h
  unfold Reader.members at h
  split at h
  · cases h
  · rename_i b tail hspace
    split at h
    · rename_i hb
      cases h
      exact .inl ⟨rfl, hb ▸ hspace⟩
    · rename_i hb
      split at h
      · cases h
      · rename_i hmembers
        cases h
        exact .inr ⟨b, tail, hspace, hb, membersRead_of_membersOn hmembers⟩

end Takes

namespace Value

/-- How a value goes on behind its first byte, which decides what is read. -/
inductive Spelled (array : Reader (List Value)) (object : Reader (List (String × Value))) :
    UInt8 → List UInt8 → Value → List UInt8 → Prop
  | array {tail rest : List UInt8} {vs : List Value} : Takes (array tail) vs rest →
      Spelled array object openBracket tail (.array vs) rest
  | object {tail rest : List UInt8} {ms : List (String × Value)} : Takes (object tail) ms rest →
      Spelled array object openBrace tail (.object ms) rest
  | string {tail rest : List UInt8} {s : String} : Takes (Literal.read tail) s rest →
      Spelled array object quote tail (.string s) rest
  | null {tail rest : List UInt8} : Takes (Reader.word "ull" () (0x6E :: tail)) () rest →
      Spelled array object 0x6E tail .null rest
  | yes {tail rest : List UInt8} : Takes (Reader.word "rue" true (0x74 :: tail)) true rest →
      Spelled array object 0x74 tail (.bool true) rest
  | no {tail rest : List UInt8} : Takes (Reader.word "alse" false (0x66 :: tail)) false rest →
      Spelled array object 0x66 tail (.bool false) rest
  | number {b : UInt8} {tail rest : List UInt8} {n : Number} :
      (b = minus || (digit? b).isSome) = true →
      Takes (Numeral.read (b :: tail)) n rest → Spelled array object b tail (.number n) rest

private theorem of_word {α β : Type} {letters : String} {meaning result : α} {b : UInt8}
    {tail rest : List UInt8} (h : Takes (Reader.word letters meaning (b :: tail)) result rest)
    (other : β) :
    result = meaning ∧ Takes (Reader.word letters other (b :: tail)) other rest := by
  obtain ⟨shorter, h⟩ := h
  unfold Reader.word at h ⊢
  dsimp only at h ⊢
  split at h
  · cases h
  · rename_i hkeyword
    cases h
    exact ⟨rfl, _, rfl⟩

theorem exists_spelled {array : Reader (List Value)} {object : Reader (List (String × Value))}
    {input rest : List UInt8} {v : Value} (h : Takes (readWith array object input) v rest) :
    ∃ b tail, skipSpace input = b :: tail ∧ Spelled array object b tail v rest := by
  obtain ⟨b, tail, hspace, h⟩ := Takes.of_onByte h
  refine ⟨b, tail, hspace, ?_⟩
  dsimp only at h
  split at h
  · rename_i hb
    obtain ⟨_, h⟩ := h
    split at h
    · cases h
    · rename_i hinside
      cases h
      exact hb ▸ .array ⟨_, hinside⟩
  split at h
  · rename_i hb
    obtain ⟨_, h⟩ := h
    split at h
    · cases h
    · rename_i hinside
      cases h
      exact hb ▸ .object ⟨_, hinside⟩
  split at h
  · rename_i hb
    obtain ⟨_, h⟩ := h
    split at h
    · cases h
    · rename_i hinside
      cases h
      exact hb ▸ .string ⟨_, hinside⟩
  split at h
  · rename_i hb
    subst hb
    obtain ⟨rfl, hword⟩ := of_word h ()
    exact .null hword
  split at h
  · rename_i hb
    subst hb
    obtain ⟨rfl, hword⟩ := of_word h true
    exact .yes hword
  split at h
  · rename_i hb
    subst hb
    obtain ⟨rfl, hword⟩ := of_word h false
    exact .no hword
  split at h
  · rename_i hb
    obtain ⟨n, rfl, hnumeral⟩ := Takes.of_map h
    exact .number hb hnumeral
  · obtain ⟨_, h⟩ := h
    cases h

theorem exists_spelled_of_readTo {depth : Nat} {input rest : List UInt8} {v : Value}
    (h : Takes (readTo depth input) v rest) :
    ∃ array object b tail, skipSpace input = b :: tail ∧ Spelled array object b tail v rest := by
  cases depth with
  | zero => exact ⟨_, _, exists_spelled h⟩
  | succ depth => exact ⟨_, _, exists_spelled h⟩

theorem of_readTo_array {depth : Nat} {input rest : List UInt8} {vs : List Value}
    (h : Takes (readTo depth input) (.array vs) rest) :
    ∃ inner tail, skipSpace input = openBracket :: tail ∧
      Takes (Reader.items (readTo inner) tail) vs rest := by
  cases depth with
  | zero =>
    obtain ⟨b, tail, hspace, hspelled⟩ := exists_spelled h
    cases hspelled with
    | array harray =>
      obtain ⟨_, harray⟩ := harray
      cases harray
  | succ depth =>
    obtain ⟨b, tail, hspace, hspelled⟩ := exists_spelled h
    cases hspelled with
    | array harray => exact ⟨depth, tail, hspace, harray⟩

theorem of_readTo_object {depth : Nat} {input rest : List UInt8} {ms : List (String × Value)}
    (h : Takes (readTo depth input) (.object ms) rest) :
    ∃ inner tail, skipSpace input = openBrace :: tail ∧
      Takes (Reader.members (member (readTo inner)) [] tail) ms.reverse rest := by
  cases depth with
  | zero =>
    obtain ⟨b, tail, hspace, hspelled⟩ := exists_spelled h
    cases hspelled with
    | object hobject =>
      obtain ⟨_, hobject⟩ := hobject
      cases hobject
  | succ depth =>
    obtain ⟨b, tail, hspace, hspelled⟩ := exists_spelled h
    cases hspelled with
    | object hobject =>
      obtain ⟨out, rfl, hmembers⟩ := Takes.of_map hobject
      exact ⟨depth, tail, hspace, by rwa [List.reverse_reverse]⟩

end Value

end PoolUplink.Json
