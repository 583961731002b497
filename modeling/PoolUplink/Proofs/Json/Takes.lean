import PoolUplink.Json.Reader

/-!
# What a reader takes

A reader that succeeds has taken something off the front of its input and left a rest. Each way to
put readers together is described once by what it takes when its parts do; reading a whole value is
then a matter of its constructors.
-/

set_option autoImplicit false
set_option relaxedAutoImplicit false

namespace PoolUplink.Json

open PoolUplink.Json.Ascii

/-- Reading an input has taken a result off it and left a rest. -/
def Takes {α : Type} {input : List UInt8} (reading : Except Fault (Step α input)) (result : α)
    (rest : List UInt8) : Prop :=
  ∃ shorter, reading = .ok ⟨result, rest, shorter⟩

theorem skipSpace_cons {b : UInt8} (hb : isSpace b = false) (rest : List UInt8) :
    skipSpace (b :: rest) = b :: rest := by
  rw [skipSpace, List.dropWhile_cons_of_neg (by simp [hb])]

theorem keyword_append (word rest : List UInt8) : keyword word (word ++ rest) = .ok rest := by
  induction word with
  | nil => rfl
  | cons k word ih => exact (if_pos rfl).trans ih

theorem pastColon_of_skipSpace {input rest : List UInt8}
    (hspace : skipSpace input = colon :: rest) :
    Takes (pastColon input) () rest := by
  unfold pastColon
  split
  · rename_i h
    rw [hspace] at h
    cases h
  · rename_i h
    rw [hspace] at h
    obtain ⟨rfl, rfl⟩ := List.cons.inj h
    exact ⟨_, if_pos rfl⟩

theorem Reader.onByte_eq {α : Type} {input tail : List UInt8} {b : UInt8}
    {f : (b : UInt8) → (rest : List UInt8) → Except Fault (Step α (b :: rest))}
    (hspace : skipSpace input = b :: tail) :
    Reader.onByte f input =
      match f b tail with
      | .error fault => .error fault
      | .ok s => .ok (s.widen (hspace ▸ skipSpace_length_le input)) := by
  unfold Reader.onByte
  split
  · rename_i hn
    rw [hspace] at hn
    cases hn
  · rename_i hc
    rw [hspace] at hc
    obtain ⟨rfl, rfl⟩ := List.cons.inj hc
    cases f b tail <;> rfl

namespace Takes

variable {α β : Type} {input rest : List UInt8} {result : α}

theorem map {r : Reader α} (f : α → β) (h : Takes (r input) result rest) :
    Takes (r.map f input) (f result) rest := by
  obtain ⟨shorter, h⟩ := h
  refine ⟨shorter, ?_⟩
  simp only [Reader.map, h]
  rfl

theorem filterMap {r : Reader α} {f : α → Option β} {b : β} (h : Takes (r input) result rest)
    (hf : f result = some b) : Takes (r.filterMap f input) b rest := by
  obtain ⟨shorter, h⟩ := h
  refine ⟨shorter, ?_⟩
  simp only [Reader.filterMap, h, hf]

theorem run {r : Reader α} (h : Takes (r input) result rest) (blank : skipSpace rest = []) :
    r.run input = .ok result := by
  obtain ⟨shorter, h⟩ := h
  simp only [Reader.run, h, blank]
  rfl

theorem onByte_of_skipSpace
    {f : (b : UInt8) → (rest : List UInt8) → Except Fault (Step α (b :: rest))} {b : UInt8}
    {tail : List UInt8} (hspace : skipSpace input = b :: tail) (h : Takes (f b tail) result rest) :
    Takes (Reader.onByte f input) result rest := by
  obtain ⟨shorter, h⟩ := h
  rw [Reader.onByte_eq hspace, h]
  exact ⟨_, rfl⟩

theorem onByte {f : (b : UInt8) → (rest : List UInt8) → Except Fault (Step α (b :: rest))}
    {b : UInt8} (hb : isSpace b = false) (h : Takes (f b input) result rest) :
    Takes (Reader.onByte f (b :: input)) result rest :=
  onByte_of_skipSpace (skipSpace_cons hb input) h

theorem word (letters : String) (meaning : α) (b : UInt8) (rest : List UInt8) :
    Takes (Reader.word letters meaning (b :: (bytes letters ++ rest))) meaning rest := by
  unfold Reader.word
  dsimp only
  split
  · rename_i h
    rw [keyword_append] at h
    cases h
  · rename_i h
    rw [keyword_append] at h
    cases h
    exact ⟨_, rfl⟩

theorem afterColon_of_pastColon {r : Reader α} {tail : List UInt8}
    (hcolon : Takes (pastColon input) () tail) (h : Takes (r tail) result rest) :
    Takes (Reader.afterColon r input) result rest := by
  obtain ⟨_, hcolon⟩ := hcolon
  obtain ⟨_, h⟩ := h
  simp only [Reader.afterColon, hcolon, h]
  exact ⟨_, rfl⟩

theorem afterColon {r : Reader α} (h : Takes (r input) result rest) :
    Takes (Reader.afterColon r (colon :: input)) result rest :=
  afterColon_of_pastColon (pastColon_of_skipSpace (skipSpace_cons (by decide) input)) h

theorem itemsOn_step {item : Reader α} (before : List α) {tail : List UInt8} {b : UInt8}
    (h : Takes (item input) result tail) (hspace : skipSpace tail = b :: rest) :
    Reader.itemsOn item before input =
      if b = closeBracket then .ok ((result :: before).reverse, rest)
      else if b = comma then Reader.itemsOn item (result :: before) rest
      else .error .malformed := by
  obtain ⟨_, h⟩ := h
  rw [Reader.itemsOn, h]
  dsimp only
  split
  · rename_i hn
    rw [hspace] at hn
    cases hn
  · rename_i hc
    rw [hspace] at hc
    obtain ⟨rfl, rfl⟩ := List.cons.inj hc
    rfl

theorem itemsOn_last {item : Reader α} (before : List α)
    (h : Takes (item input) result (closeBracket :: rest)) :
    Reader.itemsOn item before input = .ok ((result :: before).reverse, rest) := by
  rw [itemsOn_step before h (skipSpace_cons (by decide) rest), if_pos rfl]

theorem itemsOn_more {item : Reader α} (before : List α)
    (h : Takes (item input) result (comma :: rest)) :
    Reader.itemsOn item before input = Reader.itemsOn item (result :: before) rest := by
  rw [itemsOn_step before h (skipSpace_cons (by decide) rest), if_neg (by decide), if_pos rfl]

theorem items_of_skipSpace_nil {item : Reader α} (hspace : skipSpace input = closeBracket :: rest) :
    Takes (Reader.items item input) [] rest := by
  unfold Reader.items
  split
  · rename_i hn
    rw [hspace] at hn
    cases hn
  · rename_i hc
    rw [hspace] at hc
    obtain ⟨rfl, rfl⟩ := List.cons.inj hc
    exact ⟨_, if_pos rfl⟩

theorem items_nil (item : Reader α) (rest : List UInt8) :
    Takes (Reader.items item (closeBracket :: rest)) [] rest :=
  items_of_skipSpace_nil (skipSpace_cons (by decide) rest)

theorem items_of_itemsOn {item : Reader α} {b : UInt8} {tail : List UInt8} {out : List α}
    (hspace : skipSpace input = b :: tail) (hne : b ≠ closeBracket)
    (h : Reader.itemsOn item [] input = .ok (out, rest)) :
    Takes (Reader.items item input) out rest := by
  unfold Reader.items
  split
  · rename_i hn
    rw [hspace] at hn
    cases hn
  · rename_i hc
    rw [hspace] at hc
    obtain ⟨rfl, rfl⟩ := List.cons.inj hc
    rw [if_neg hne]
    split
    · rename_i he
      rw [h] at he
      cases he
    · rename_i ho
      rw [h] at ho
      cases ho
      exact ⟨_, rfl⟩

theorem items_cons {item : Reader α} {b : UInt8} {out : List α} (hb : isSpace b = false)
    (hne : b ≠ closeBracket)
    (h : Reader.itemsOn item [] (b :: input) = .ok (out, rest)) :
    Takes (Reader.items item (b :: input)) out rest :=
  items_of_itemsOn (skipSpace_cons hb input) hne h

theorem membersOn_step {member : α → String → Reader α} {state : α} {name : String}
    {behind tail : List UInt8} {b : UInt8} (hn : Takes (Reader.name input) name behind)
    (hm : Takes (member state name behind) result tail) (hspace : skipSpace tail = b :: rest) :
    Reader.membersOn member state input =
      if b = closeBrace then .ok (result, rest)
      else if b = comma then Reader.membersOn member result rest
      else .error .malformed := by
  obtain ⟨_, hn⟩ := hn
  obtain ⟨_, hm⟩ := hm
  rw [Reader.membersOn, hn]
  dsimp only
  rw [hm]
  dsimp only
  split
  · rename_i hn
    rw [hspace] at hn
    cases hn
  · rename_i hc
    rw [hspace] at hc
    obtain ⟨rfl, rfl⟩ := List.cons.inj hc
    rfl

theorem membersOn_last {member : α → String → Reader α} {state : α} {name : String}
    {behind : List UInt8} (hn : Takes (Reader.name input) name behind)
    (hm : Takes (member state name behind) result (closeBrace :: rest)) :
    Reader.membersOn member state input = .ok (result, rest) := by
  rw [membersOn_step hn hm (skipSpace_cons (by decide) rest), if_pos rfl]

theorem membersOn_more {member : α → String → Reader α} {state : α} {name : String}
    {behind : List UInt8} (hn : Takes (Reader.name input) name behind)
    (hm : Takes (member state name behind) result (comma :: rest)) :
    Reader.membersOn member state input = Reader.membersOn member result rest := by
  rw [membersOn_step hn hm (skipSpace_cons (by decide) rest), if_neg (by decide), if_pos rfl]

theorem members_of_skipSpace_nil {member : α → String → Reader α} {start : α}
    (hspace : skipSpace input = closeBrace :: rest) :
    Takes (Reader.members member start input) start rest := by
  unfold Reader.members
  split
  · rename_i hn
    rw [hspace] at hn
    cases hn
  · rename_i hc
    rw [hspace] at hc
    obtain ⟨rfl, rfl⟩ := List.cons.inj hc
    exact ⟨_, if_pos rfl⟩

theorem members_nil (member : α → String → Reader α) (start : α) (rest : List UInt8) :
    Takes (Reader.members member start (closeBrace :: rest)) start rest :=
  members_of_skipSpace_nil (skipSpace_cons (by decide) rest)

theorem members_of_membersOn {member : α → String → Reader α} {start out : α} {b : UInt8}
    {tail : List UInt8} (hspace : skipSpace input = b :: tail) (hne : b ≠ closeBrace)
    (h : Reader.membersOn member start input = .ok (out, rest)) :
    Takes (Reader.members member start input) out rest := by
  unfold Reader.members
  split
  · rename_i hn
    rw [hspace] at hn
    cases hn
  · rename_i hc
    rw [hspace] at hc
    obtain ⟨rfl, rfl⟩ := List.cons.inj hc
    rw [if_neg hne]
    split
    · rename_i he
      rw [h] at he
      cases he
    · rename_i ho
      rw [h] at ho
      cases ho
      exact ⟨_, rfl⟩

theorem members_cons {member : α → String → Reader α} {start out : α} {b : UInt8}
    (hb : isSpace b = false) (hne : b ≠ closeBrace)
    (h : Reader.membersOn member start (b :: input) = .ok (out, rest)) :
    Takes (Reader.members member start (b :: input)) out rest :=
  members_of_membersOn (skipSpace_cons hb input) hne h

end Takes

end PoolUplink.Json
