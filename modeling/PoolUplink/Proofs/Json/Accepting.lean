import PoolUplink.Proofs.Json.Shape
import PoolUplink.Proofs.Json.Skipping

/-!
# What readers make of texts

A reader accepts a text for what it says if it takes all of it, whatever blanks are in front and
whatever comes behind that ends it. Readers of texts, truth values, numbers and lists accept every
way to write them.
-/

set_option autoImplicit false
set_option relaxedAutoImplicit false

namespace PoolUplink.Json

open PoolUplink.Json.Ascii
open Grammar (Commas Enclosed)
open Numeral (Stops)

variable {α β : Type}

/-- A reader takes a text, and nothing else, for what it says. -/
def Accepts (r : Reader α) (cs : List Char) (a : α) : Prop :=
  Starts cs ∧ ∀ ⦃gap : List Char⦄ ⦃rest : List UInt8⦄, Gap gap → Stops rest →
    Takes (r (utf8 gap ++ (utf8 cs ++ rest))) a rest

namespace Accepts

variable {r : Reader α} {cs : List Char} {a : α}

theorem map (h : Accepts r cs a) (f : α → β) : Accepts (r.map f) cs (f a) :=
  ⟨h.1, fun _ _ hgap stops => (h.2 hgap stops).map f⟩

theorem filterMap {f : α → Option β} {b : β} (h : Accepts r cs a) (hf : f a = some b) :
    Accepts (r.filterMap f) cs b :=
  ⟨h.1, fun _ _ hgap stops => (h.2 hgap stops).filterMap hf⟩

theorem token (h : Accepts r cs a) {before behind : List Char} (hbefore : Gap before)
    (hbehind : Gap behind) {b : UInt8}
    (token : digit? b = none ∧ b ≠ point ∧ Numeral.startsExponent b = false)
    (rest : List UInt8) :
    Takes (r (utf8 before ++ (utf8 cs ++ (utf8 behind ++ b :: rest)))) a
      (utf8 behind ++ b :: rest) :=
  h.2 hbefore (stops_gap hbehind token)

theorem run (h : Accepts r cs a) {before behind : List Char} (hbefore : Gap before)
    (hbehind : Gap behind) : r.run (utf8 (before ++ cs ++ behind)) = .ok a := by
  have stops : Stops (utf8 behind) := by
    have := @stops_gap behind hbehind [] trivial
    rwa [List.append_nil] at this
  have blank : skipSpace (utf8 behind) = [] := by
    have := skipSpace_gap hbehind []
    rwa [List.append_nil] at this
  rw [utf8_append, utf8_append, List.append_assoc]
  exact (h.2 hbefore stops).run blank

end Accepts

theorem accepts_text {literal : List Char} {s : String} (h : Literal.Spells literal s) :
    Accepts Shape.text literal s :=
  ⟨h.starts, fun _ rest hgap _ => h.takes_text hgap rest⟩

theorem accepts_value {cs : List Char} (h : Grammar.Derives .value cs) :
    Accepts Skim.value cs () :=
  ⟨(Skim.skipped_of_derives h).1, fun _ _ hgap stops => Skim.takes_value hgap h stops⟩

theorem accepts_flag (b : Bool) : Accepts Shape.flag (if b then "true" else "false").toList b := by
  cases b with
  | true =>
    refine ⟨starts_cons (by decide) (by decide) _, fun gap rest hgap _ => ?_⟩
    refine .onByte_of_skipSpace (skipSpace_gap_cons hgap (by decide) _) ?_
    exact Takes.word "rue" true 0x74 rest
  | false =>
    refine ⟨starts_cons (by decide) (by decide) _, fun gap rest hgap _ => ?_⟩
    refine .onByte_of_skipSpace (skipSpace_gap_cons hgap (by decide) _) ?_
    exact Takes.word "alse" false 0x66 rest

private theorem utf8_decimal (n : Nat) :
    utf8 (Text.Numeral.decimal n) = Numeral.decimalBytes n := by
  have ascii : ∀ c ∈ Text.Numeral.decimal n, String.utf8EncodeChar c = [c.toNat.toUInt8] := by
    intro c hc
    have := Text.Numeral.toNat_of_decimal_digit (Text.Numeral.digit?_isSome_of_mem_decimal hc)
    exact utf8EncodeChar_ascii (by omega)
  rw [utf8, List.flatMap_congr ascii, ← List.map_eq_flatMap, Numeral.decimalBytes]

theorem accepts_natural {bound n : Nat} (h : n < bound) (fits : n < UInt64.size) :
    Accepts (Shape.natural bound) (Text.Numeral.decimal n) n := by
  have exact : Exact n :=
    ⟨Int.le_trans (by decide) (Int.natCast_nonneg n), Int.ofNat_lt.mpr fits⟩
  cases hbytes : Numeral.decimalBytes n with
  | nil => exact absurd hbytes (Numeral.decimalBytes_ne_nil n)
  | cons b tail =>
    have hdigit : (digit? b).isSome = true :=
      Numeral.digit?_of_mem_decimalBytes (hbytes ▸ List.mem_cons_self)
    have hfirst : isSpace b = false ∧ b ≠ closeBracket ∧ b ≠ closeBrace := by
      revert hdigit
      exact forall_byte b (by decide +kernel)
    refine ⟨⟨b, tail, (utf8_decimal n).trans hbytes, hfirst⟩, ?_⟩
    intro gap rest hgap stops
    have hread := Numeral.takes_whole n exact stops
    have hwrite : (Number.whole n exact).write = b :: tail := hbytes
    rw [hwrite] at hread
    rw [utf8_decimal, hbytes]
    refine .onByte_of_skipSpace (skipSpace_gap_cons hgap hfirst.1 _) ?_
    rw [if_pos (by rw [hdigit, Bool.or_true])]
    exact hread.filterMap (if_pos h)

section Lists

variable {Piece : α → List Char → Prop} {item : Reader α}

theorem begins_of_commas {as : List α} {cs : List Char} (h : Commas Piece as cs)
    (starts : ∀ a cs, Piece a cs → Starts cs) : Begins cs := by
  cases h with
  | last hbefore hpiece _ =>
    exact ⟨_, _, List.append_assoc .., hbefore, (starts _ _ hpiece).append _⟩
  | @more a as before piece behind following hbefore hpiece =>
    exact ⟨before, piece ++ (behind ++ ',' :: following), by simp, hbefore,
      (starts _ _ hpiece).append _⟩

private theorem itemsRead_of_commas {as : List α} {cs : List Char} (h : Commas Piece as cs)
    (accepted : ∀ a cs, Piece a cs → Accepts item cs a) (rest : List UInt8) :
    ItemsRead item (utf8 cs ++ closeBracket :: rest) as rest := by
  induction h with
  | last hbefore hpiece hbehind =>
    rw [utf8_last]
    exact .last ((accepted _ _ hpiece).token hbefore hbehind (by decide) _)
      (skipSpace_gap_cons hbehind (by decide) _)
  | more hbefore hpiece hbehind _ ih =>
    rw [utf8_more]
    exact .more ((accepted _ _ hpiece).token hbefore hbehind (by decide) _)
      (skipSpace_gap_cons hbehind (by decide) _) ih

theorem accepts_list {as : List α} {cs : List Char} (h : Enclosed '[' ']' Piece as cs)
    (accepted : ∀ a cs, Piece a cs → Accepts item cs a) : Accepts (Shape.list item) cs as := by
  -- what is behind the bracket that opens the list, read as items
  have enclosed {inside : List Char} (hinside : ∀ rest,
      Takes (Reader.items item (utf8 inside ++ closeBracket :: rest)) as rest) :
      Accepts (Shape.list item) ('[' :: inside ++ [']']) as := by
    refine ⟨starts_cons (by decide) (by decide) _, ?_⟩
    intro gap rest hgap _
    obtain ⟨_, hitems⟩ := hinside rest
    rw [utf8_brackets]
    refine .onByte_of_skipSpace (skipSpace_gap_cons hgap (by decide) _) ?_
    rw [if_pos rfl, hitems]
    exact ⟨_, rfl⟩
  cases h with
  | nil hgap =>
    exact enclosed fun rest => .items_of_skipSpace_nil (skipSpace_gap_cons hgap (by decide) rest)
  | commas hcommas =>
    refine enclosed fun rest => ?_
    obtain ⟨b, tail, hspace, hb, -⟩ :=
      (begins_of_commas hcommas fun a cs hpiece => (accepted a cs hpiece).1).skipSpace
        (closeBracket :: rest)
    exact .items_of_itemsOn hspace hb ((itemsRead_of_commas hcommas accepted rest).itemsOn [])

end Lists

end PoolUplink.Json
