import PoolUplink.Proofs.Json.Literal
import PoolUplink.Proofs.Json.Numeral

/-!
# Values are read back

What is written of a value is read back as that value: strings whatever they hold, whole numbers
exactly, arrays and objects as deep as reading goes. Numbers at double precision are left out. No
control is written, so nothing that is written ends a line.
-/

set_option autoImplicit false
set_option relaxedAutoImplicit false

namespace PoolUplink.Json

open PoolUplink.Json.Ascii
open Numeral (Stops)

def startsNumber (b : UInt8) : Bool := b = minus || (digit? b).isSome

private theorem other_of_startsNumber {b : UInt8} (h : startsNumber b = true) :
    isSpace b = false ∧ b ≠ closeBracket ∧ b ≠ openBracket ∧ b ≠ openBrace ∧ b ≠ quote ∧
      b ≠ 0x6E ∧ b ≠ 0x74 ∧ b ≠ 0x66 := by
  revert h
  exact forall_byte b (by decide +kernel)

private theorem Number.exists_first (n : Int) (exact : Exact n) :
    ∃ b tail, (Number.whole n exact).write = b :: tail ∧ startsNumber b = true := by
  cases n with
  | ofNat k =>
    obtain ⟨b, tail, h⟩ := List.exists_cons_of_ne_nil (Numeral.decimalBytes_ne_nil k)
    have hb : (digit? b).isSome = true :=
      Numeral.digit?_of_mem_decimalBytes (h ▸ List.mem_cons_self)
    refine ⟨b, tail, h, ?_⟩
    rw [startsNumber, hb, Bool.or_true]
  | negSucc k => exact ⟨minus, Numeral.decimalBytes (k + 1), rfl, by decide⟩

namespace Value

mutual

/-- Whether all numbers in a value are whole numbers that are kept exactly. -/
def integral : Value → Bool
  | null => true
  | bool _ => true
  | number (.whole _ _) => true
  | number (.double _) => false
  | string _ => true
  | array items => integralItems items
  | object members => integralMembers members

def integralItems : List Value → Bool
  | [] => true
  | v :: rest => v.integral && integralItems rest

def integralMembers : List (String × Value) → Bool
  | [] => true
  | (_, v) :: rest => v.integral && integralMembers rest

end

theorem integralItems_iff {vs : List Value} :
    integralItems vs = true ↔ ∀ v ∈ vs, v.integral = true := by
  induction vs with
  | nil => simp [integralItems]
  | cons v vs ih => rw [integralItems, Bool.and_eq_true, ih, List.forall_mem_cons]

theorem integralMembers_iff {ms : List (String × Value)} :
    integralMembers ms = true ↔ ∀ m ∈ ms, m.2.integral = true := by
  induction ms with
  | nil => simp [integralMembers]
  | cons m ms ih => rw [integralMembers, Bool.and_eq_true, ih, List.forall_mem_cons]

section Readers

variable {array : Reader (List Value)} {object : Reader (List (String × Value))}
  {input rest : List UInt8}

private theorem takes_array {vs : List Value} (h : Takes (array input) vs rest) :
    Takes (readWith array object (openBracket :: input)) (.array vs) rest := by
  obtain ⟨_, h⟩ := h
  refine .onByte (by decide) ?_
  rw [if_pos rfl]
  dsimp only
  rw [h]
  exact ⟨_, rfl⟩

private theorem takes_object {ms : List (String × Value)} (h : Takes (object input) ms rest) :
    Takes (readWith array object (openBrace :: input)) (.object ms) rest := by
  obtain ⟨_, h⟩ := h
  refine .onByte (by decide) ?_
  rw [if_neg (by decide), if_pos rfl]
  dsimp only
  rw [h]
  exact ⟨_, rfl⟩

private theorem takes_string (s : String) :
    Takes (readWith array object (Literal.write s ++ rest)) (.string s) rest := by
  obtain ⟨_, h⟩ := Literal.takes_read s rest
  rw [Literal.write_append]
  refine .onByte (by decide) ?_
  rw [if_neg (by decide), if_neg (by decide), if_pos rfl]
  dsimp only
  rw [h]
  exact ⟨_, rfl⟩

private theorem takes_null : Takes (readWith array object (bytes "null" ++ rest)) .null rest := by
  have h : bytes "null" = 0x6E :: bytes "ull" := by decide
  rw [h, List.cons_append]
  refine .onByte (by decide) ?_
  rw [if_neg (by decide), if_neg (by decide), if_neg (by decide), if_pos rfl]
  exact .word "ull" Value.null 0x6E rest

private theorem takes_bool (b : Bool) :
    Takes (readWith array object (bytes (if b then "true" else "false") ++ rest)) (.bool b)
      rest := by
  cases b with
  | true =>
    have h : bytes "true" = 0x74 :: bytes "rue" := by decide
    rw [if_pos rfl, h, List.cons_append]
    refine .onByte (by decide) ?_
    rw [if_neg (by decide), if_neg (by decide), if_neg (by decide), if_neg (by decide), if_pos rfl]
    exact .word "rue" (Value.bool true) 0x74 rest
  | false =>
    have h : bytes "false" = 0x66 :: bytes "alse" := by decide
    rw [if_neg Bool.false_ne_true, h, List.cons_append]
    refine .onByte (by decide) ?_
    rw [if_neg (by decide), if_neg (by decide), if_neg (by decide), if_neg (by decide),
      if_neg (by decide), if_pos rfl]
    exact .word "alse" (Value.bool false) 0x66 rest

private theorem takes_number {n : Number} {b : UInt8} (hb : startsNumber b = true)
    (h : Takes (Numeral.read (b :: input)) n rest) :
    Takes (readWith array object (b :: input)) (.number n) rest := by
  obtain ⟨hs, -, h1, h2, h3, h4, h5, h6⟩ := other_of_startsNumber hb
  refine .onByte hs ?_
  rw [if_neg h1, if_neg h2, if_neg h3, if_neg h4, if_neg h5, if_neg h6]
  rw [startsNumber] at hb
  rw [if_pos hb]
  exact h.map Value.number

private theorem exists_readWith (depth : Nat) :
    ∃ array object, readTo depth = readWith array object := by
  cases depth with
  | zero => exact ⟨_, _, rfl⟩
  | succ depth => exact ⟨_, _, rfl⟩

end Readers

private theorem exists_first {v : Value} (hv : v.integral = true) :
    ∃ b tail, v.write = b :: tail ∧ isSpace b = false ∧ b ≠ closeBracket := by
  cases v with
  | null => exact ⟨0x6E, bytes "ull", by decide, by decide, by decide⟩
  | bool b =>
    cases b with
    | true => exact ⟨0x74, bytes "rue", by decide, by decide, by decide⟩
    | false => exact ⟨0x66, bytes "alse", by decide, by decide, by decide⟩
  | number n =>
    cases n with
    | whole n exact =>
      obtain ⟨b, tail, h, hb⟩ := Number.exists_first n exact
      obtain ⟨hs, hne, -⟩ := other_of_startsNumber hb
      exact ⟨b, tail, h, hs, hne⟩
    | double x => cases hv
  | string s => exact ⟨quote, _, rfl, by decide, by decide⟩
  | array vs => exact ⟨openBracket, _, rfl, by decide, by decide⟩
  | object ms => exact ⟨openBrace, _, rfl, by decide, by decide⟩

private theorem exists_first_of_items {vs : List Value} (hne : vs ≠ [])
    (hvs : integralItems vs = true) :
    ∃ b tail, writeItems vs = b :: tail ∧ isSpace b = false ∧ b ≠ closeBracket := by
  obtain ⟨v, vs, rfl⟩ := List.exists_cons_of_ne_nil hne
  obtain ⟨hv, -⟩ := Bool.and_eq_true_iff.mp hvs
  obtain ⟨b, tail, h, hb⟩ := exists_first hv
  cases vs with
  | nil => exact ⟨b, tail, h, hb⟩
  | cons w vs =>
    refine ⟨b, tail ++ comma :: writeItems (w :: vs), ?_, hb⟩
    rw [writeItems, h]
    rfl

private theorem exists_first_of_members {ms : List (String × Value)} (hne : ms ≠ []) :
    ∃ tail, writeMembers ms = quote :: tail := by
  obtain ⟨⟨name, v⟩, ms, rfl⟩ := List.exists_cons_of_ne_nil hne
  cases ms with
  | nil => exact ⟨_, rfl⟩
  | cons m ms => exact ⟨_, rfl⟩

private theorem takes_member {value : Reader Value} (before : List (String × Value)) (name : String)
    {v : Value} {input rest : List UInt8} (h : Takes (value input) v rest) :
    Takes (member value before name (colon :: input)) ((name, v) :: before) rest :=
  .afterColon (h.map fun v => (name, v) :: before)

-- The recursion is that of writing. Inside an array or object the reader goes one level less deep,
-- and what follows a value is a comma or the closing byte, which no numeral takes for its own.
mutual

/-- A value is read back by a reader that goes as deep, whatever follows that does not go on a
numeral. -/
theorem takes_write : (v : Value) → v.integral = true → ∀ {depth : Nat}, v.depth ≤ depth →
    ∀ {rest : List UInt8}, Stops rest → Takes (readTo depth (v.write ++ rest)) v rest
  | null, _, depth, _, rest, _ => by
    obtain ⟨array, object, h⟩ := exists_readWith depth
    rw [h]
    exact takes_null
  | bool b, _, depth, _, rest, _ => by
    obtain ⟨array, object, h⟩ := exists_readWith depth
    rw [h]
    exact takes_bool b
  | number (.whole n exact), _, depth, _, rest, hr => by
    obtain ⟨array, object, h⟩ := exists_readWith depth
    obtain ⟨b, tail, hbytes, hb⟩ := Number.exists_first n exact
    have hn := Numeral.takes_whole n exact hr
    rw [hbytes] at hn
    rw [h, write, hbytes]
    exact takes_number hb hn
  | number (.double _), hv, _, _, _, _ => by cases hv
  | string s, _, depth, _, rest, _ => by
    obtain ⟨array, object, h⟩ := exists_readWith depth
    rw [h]
    exact takes_string s
  | array vs, hv, 0, hd, _, _ => absurd hd (Nat.not_succ_le_zero _)
  | array vs, hv, depth + 1, hd, rest, _ => by
    have hbytes : (array vs).write ++ rest =
        openBracket :: (writeItems vs ++ closeBracket :: rest) := by simp [write]
    rw [hbytes]
    refine takes_array ?_
    cases vs with
    | nil => exact .items_nil _ rest
    | cons v vs =>
      have hitems := itemsOn_writeItems (v :: vs) (List.cons_ne_nil v vs) hv
        (Nat.le_of_succ_le_succ hd) [] rest
      obtain ⟨b, tail, hfirst, hs, hne⟩ := exists_first_of_items (List.cons_ne_nil v vs) hv
      rw [hfirst] at hitems ⊢
      exact .items_cons hs hne hitems
  | object ms, hv, 0, hd, _, _ => absurd hd (Nat.not_succ_le_zero _)
  | object ms, hv, depth + 1, hd, rest, _ => by
    have hbytes : (object ms).write ++ rest =
        openBrace :: (writeMembers ms ++ closeBrace :: rest) := by simp [write]
    rw [hbytes]
    refine takes_object ?_
    cases ms with
    | nil => exact (Takes.members_nil _ [] rest).map List.reverse
    | cons m ms =>
      have hmembers := membersOn_writeMembers (m :: ms) (List.cons_ne_nil m ms) hv
        (Nat.le_of_succ_le_succ hd) [] rest
      obtain ⟨tail, hfirst⟩ := exists_first_of_members (List.cons_ne_nil m ms)
      rw [hfirst] at hmembers ⊢
      have := (Takes.members_cons (by decide) (by decide) hmembers).map List.reverse
      rwa [List.append_nil, List.reverse_reverse] at this

private theorem itemsOn_writeItems : (vs : List Value) → vs ≠ [] → integralItems vs = true →
    ∀ {depth : Nat}, depthOfItems vs ≤ depth → ∀ (before : List Value) (rest : List UInt8),
      Reader.itemsOn (readTo depth) before (writeItems vs ++ closeBracket :: rest) =
        .ok (before.reverse ++ vs, rest)
  | [], hne, _, _, _, _, _ => absurd rfl hne
  | [v], _, hv, depth, hd, before, rest => by
    obtain ⟨hv, -⟩ := Bool.and_eq_true_iff.mp hv
    have hitem : Takes (readTo depth (v.write ++ closeBracket :: rest)) v (closeBracket :: rest) :=
      takes_write v hv (Nat.le_trans (Nat.le_max_left _ _) hd) ⟨by decide, by decide, by decide⟩
    rw [writeItems, Takes.itemsOn_last before hitem, List.reverse_cons]
  | v :: w :: vs, _, hv, depth, hd, before, rest => by
    obtain ⟨hv, hvs⟩ := Bool.and_eq_true_iff.mp hv
    have hitem : Takes
        (readTo depth (v.write ++ comma :: (writeItems (w :: vs) ++ closeBracket :: rest))) v
        (comma :: (writeItems (w :: vs) ++ closeBracket :: rest)) :=
      takes_write v hv (Nat.le_trans (Nat.le_max_left _ _) hd) ⟨by decide, by decide, by decide⟩
    have hitems := itemsOn_writeItems (w :: vs) (List.cons_ne_nil w vs) hvs
      (Nat.le_trans (Nat.le_max_right _ _) hd) (v :: before) rest
    have hmore := Takes.itemsOn_more before hitem
    rw [hitems, List.reverse_cons, List.append_assoc] at hmore
    rw [writeItems, List.append_assoc]
    exact hmore

private theorem membersOn_writeMembers : (ms : List (String × Value)) → ms ≠ [] →
    integralMembers ms = true → ∀ {depth : Nat}, depthOfMembers ms ≤ depth →
    ∀ (before : List (String × Value)) (rest : List UInt8),
      Reader.membersOn (member (readTo depth)) before (writeMembers ms ++ closeBrace :: rest) =
        .ok (ms.reverse ++ before, rest)
  | [], hne, _, _, _, _, _ => absurd rfl hne
  | [(name, v)], _, hv, depth, hd, before, rest => by
    obtain ⟨hv, -⟩ := Bool.and_eq_true_iff.mp hv
    have hvalue : Takes (readTo depth (v.write ++ closeBrace :: rest)) v (closeBrace :: rest) :=
      takes_write v hv (Nat.le_trans (Nat.le_max_left _ _) hd) ⟨by decide, by decide, by decide⟩
    have hlast := Takes.membersOn_last (.name name (colon :: (v.write ++ closeBrace :: rest)))
      (takes_member before name hvalue)
    rw [writeMembers, List.append_assoc]
    exact hlast
  | (name, v) :: m :: ms, _, hv, depth, hd, before, rest => by
    obtain ⟨hv, hms⟩ := Bool.and_eq_true_iff.mp hv
    have hvalue : Takes
        (readTo depth (v.write ++ comma :: (writeMembers (m :: ms) ++ closeBrace :: rest))) v
        (comma :: (writeMembers (m :: ms) ++ closeBrace :: rest)) :=
      takes_write v hv (Nat.le_trans (Nat.le_max_left _ _) hd) ⟨by decide, by decide, by decide⟩
    have hmore := Takes.membersOn_more
      (.name name (colon :: (v.write ++ comma :: (writeMembers (m :: ms) ++ closeBrace :: rest))))
      (takes_member before name hvalue)
    have hmembers := membersOn_writeMembers (m :: ms) (List.cons_ne_nil m ms) hms
      (Nat.le_trans (Nat.le_max_right _ _) hd) ((name, v) :: before) rest
    rw [hmembers] at hmore
    simp only [writeMembers, List.append_assoc, List.cons_append] at hmore ⊢
    rw [hmore]
    simp

end

private theorem no_control_of_all {bytes : List UInt8}
    (h : (bytes.all fun b => !decide (b < 0x20)) = true) : ∀ b ∈ bytes, ¬ b < 0x20 := by
  intro b hb
  have := List.all_eq_true.mp h b hb
  simpa using this

private theorem no_control_of_mem_number {n : Int} {exact : Exact n} {b : UInt8}
    (h : b ∈ (Number.whole n exact).write) : ¬ b < 0x20 := by
  have hdigits {k : Nat} (hb : b ∈ Numeral.decimalBytes k) : ¬ b < 0x20 := by
    intro control
    have hnone : digit? b = none := forall_control control (by decide)
    have hsome := Numeral.digit?_of_mem_decimalBytes hb
    rw [hnone] at hsome
    cases hsome
  cases n with
  | ofNat k => exact hdigits (show b ∈ Numeral.decimalBytes k from h)
  | negSucc k =>
    have hbytes : (Number.whole (.negSucc k) exact).write =
        minus :: Numeral.decimalBytes (k + 1) := rfl
    rw [hbytes] at h
    rcases List.mem_cons.mp h with rfl | h
    · decide
    · exact hdigits h

mutual

/-- No control is written, so what is written of a value is part of one line. -/
theorem no_control_of_mem_write : (v : Value) → v.integral = true →
    ∀ b ∈ v.write, ¬ b < 0x20
  | null, _ => no_control_of_all (by decide)
  | bool true, _ => no_control_of_all (by decide)
  | bool false, _ => no_control_of_all (by decide)
  | number (.whole _ _), _ => fun _ h => no_control_of_mem_number h
  | number (.double _), hv => by cases hv
  | string _, _ => fun _ h => Literal.no_control_of_mem_write h
  | array vs, hv => by
    have hitems := no_control_of_mem_items vs hv
    rw [write, List.cons_append, List.forall_mem_cons, List.forall_mem_append]
    exact ⟨by decide, hitems, no_control_of_all (by decide)⟩
  | object ms, hv => by
    have hmembers := no_control_of_mem_members ms hv
    rw [write, List.cons_append, List.forall_mem_cons, List.forall_mem_append]
    exact ⟨by decide, hmembers, no_control_of_all (by decide)⟩

private theorem no_control_of_mem_items : (vs : List Value) → integralItems vs = true →
    ∀ b ∈ writeItems vs, ¬ b < 0x20
  | [], _ => by
    intro b h
    cases h
  | [v], hv => no_control_of_mem_write v (Bool.and_eq_true_iff.mp hv).1
  | v :: w :: vs, hv => by
    obtain ⟨hv, hvs⟩ := Bool.and_eq_true_iff.mp hv
    have hfirst := no_control_of_mem_write v hv
    have hrest := no_control_of_mem_items (w :: vs) hvs
    rw [writeItems, List.forall_mem_append, List.forall_mem_cons]
    exact ⟨hfirst, by decide, hrest⟩

private theorem no_control_of_mem_members :
    (ms : List (String × Value)) → integralMembers ms = true → ∀ b ∈ writeMembers ms, ¬ b < 0x20
  | [], _ => by
    intro b h
    cases h
  | [(name, v)], hv => by
    have hvalue := no_control_of_mem_write v (Bool.and_eq_true_iff.mp hv).1
    have hname : ∀ b ∈ Literal.write name, ¬ b < 0x20 :=
      fun _ => Literal.no_control_of_mem_write
    rw [writeMembers, List.forall_mem_append, List.forall_mem_cons]
    exact ⟨hname, by decide, hvalue⟩
  | (name, v) :: m :: ms, hv => by
    obtain ⟨hv, hms⟩ := Bool.and_eq_true_iff.mp hv
    have hvalue := no_control_of_mem_write v hv
    have hname : ∀ b ∈ Literal.write name, ¬ b < 0x20 :=
      fun _ => Literal.no_control_of_mem_write
    have hrest := no_control_of_mem_members (m :: ms) hms
    rw [writeMembers, List.append_assoc, List.forall_mem_append, List.cons_append,
      List.forall_mem_cons, List.forall_mem_append, List.forall_mem_cons]
    exact ⟨hname, by decide, hvalue, by decide, hrest⟩

end

end Value

end PoolUplink.Json
