import PoolUplink.Proofs.Json.Grammar
import PoolUplink.Proofs.Json.Text

/-!
# The bytes of a grammar's texts

Readers see bytes where the grammar has characters. Gaps are skipped and end a numeral, tokens are
one byte each, and characters that stand for themselves have no byte that is escaped.
-/

set_option autoImplicit false
set_option relaxedAutoImplicit false

namespace PoolUplink.Json

open PoolUplink.Json.Ascii
open PoolUplink.Text.Numeral (IsDigit)
open Numeral (Stops)

def utf8 (cs : List Char) : List UInt8 :=
  cs.flatMap String.utf8EncodeChar

theorem bytes_eq_utf8 (s : String) : bytes s = utf8 s.toList :=
  bytes_eq s

section Tokens

variable (cs : List Char)

theorem utf8_cons (c : Char) : utf8 (c :: cs) = String.utf8EncodeChar c ++ utf8 cs := rfl

@[simp] theorem utf8_nil : utf8 [] = [] := rfl
@[simp] theorem utf8_append (ds : List Char) : utf8 (cs ++ ds) = utf8 cs ++ utf8 ds :=
  List.flatMap_append
@[simp] theorem utf8_quote : utf8 ('"' :: cs) = quote :: utf8 cs := rfl
@[simp] theorem utf8_backslash : utf8 ('\\' :: cs) = backslash :: utf8 cs := rfl
@[simp] theorem utf8_letterU : utf8 ('u' :: cs) = letterU :: utf8 cs := rfl
@[simp] theorem utf8_colon : utf8 (':' :: cs) = colon :: utf8 cs := rfl
@[simp] theorem utf8_comma : utf8 (',' :: cs) = comma :: utf8 cs := rfl
@[simp] theorem utf8_openBracket : utf8 ('[' :: cs) = openBracket :: utf8 cs := rfl
@[simp] theorem utf8_closeBracket : utf8 (']' :: cs) = closeBracket :: utf8 cs := rfl
@[simp] theorem utf8_openBrace : utf8 ('{' :: cs) = openBrace :: utf8 cs := rfl
@[simp] theorem utf8_closeBrace : utf8 ('}' :: cs) = closeBrace :: utf8 cs := rfl

theorem utf8_brackets (rest : List UInt8) :
    utf8 ('[' :: cs ++ [']']) ++ rest = openBracket :: (utf8 cs ++ closeBracket :: rest) := by
  simp

theorem utf8_braces (rest : List UInt8) :
    utf8 ('{' :: cs ++ ['}']) ++ rest = openBrace :: (utf8 cs ++ closeBrace :: rest) := by
  simp

theorem utf8_last (before behind : List Char) (rest : List UInt8) :
    utf8 (before ++ cs ++ behind) ++ rest =
      utf8 before ++ (utf8 cs ++ (utf8 behind ++ rest)) := by
  simp

theorem utf8_more (before behind following : List Char) (rest : List UInt8) :
    utf8 (before ++ cs ++ behind ++ ',' :: following) ++ rest =
      utf8 before ++ (utf8 cs ++ (utf8 behind ++ comma :: (utf8 following ++ rest))) := by
  simp

theorem utf8_member (gap ahead value : List Char) (rest : List UInt8) :
    utf8 (cs ++ gap ++ ':' :: ahead ++ value) ++ rest =
      utf8 cs ++ (utf8 gap ++ colon :: (utf8 ahead ++ (utf8 value ++ rest))) := by
  simp

end Tokens

private theorem isSpace_of_mem_gap {gap : List Char} (h : Gap gap) {b : UInt8} (hb : b ∈ utf8 gap) :
    isSpace b = true := by
  obtain ⟨c, hc, hbc⟩ := List.mem_flatMap.mp hb
  have hblanks : [' ', '\t', '\n', '\r'].all
      (fun c => (String.utf8EncodeChar c).all isSpace) = true := by
    decide
  exact List.all_eq_true.mp (List.all_eq_true.mp hblanks c (h c hc)) b hbc

theorem skipSpace_gap {gap : List Char} (h : Gap gap) (rest : List UInt8) :
    skipSpace (utf8 gap ++ rest) = skipSpace rest :=
  List.dropWhile_append_of_pos fun _ hb => isSpace_of_mem_gap h hb

theorem skipSpace_gap_cons {gap : List Char} (h : Gap gap) {b : UInt8} (hb : isSpace b = false)
    (rest : List UInt8) : skipSpace (utf8 gap ++ b :: rest) = b :: rest := by
  rw [skipSpace_gap h, skipSpace_cons hb]

theorem stops_gap {gap : List Char} (h : Gap gap) {rest : List UInt8} (stops : Stops rest) :
    Stops (utf8 gap ++ rest) := by
  cases hgap : utf8 gap with
  | nil => exact stops
  | cons b tail =>
    have all : isSpace b = true →
        digit? b = none ∧ b ≠ point ∧ Numeral.startsExponent b = false :=
      forall_byte b (by decide +kernel)
    exact all (isSpace_of_mem_gap h (hgap ▸ List.mem_cons_self))

/-- Neither a blank nor a closing bracket is what a text starts with. -/
def Starts (cs : List Char) : Prop :=
  ∃ (b : UInt8) (tail : List UInt8), utf8 cs = b :: tail ∧ isSpace b = false ∧
    b ≠ closeBracket ∧ b ≠ closeBrace

theorem starts_cons {c : Char} (ascii : c.toNat < 0x80)
    (h : isSpace c.toNat.toUInt8 = false ∧ c.toNat.toUInt8 ≠ closeBracket ∧
      c.toNat.toUInt8 ≠ closeBrace) (cs : List Char) : Starts (c :: cs) :=
  ⟨_, utf8 cs, by rw [utf8_cons, utf8EncodeChar_ascii ascii]; rfl, h⟩

theorem Starts.append {cs : List Char} (h : Starts cs) (ds : List Char) : Starts (cs ++ ds) := by
  obtain ⟨b, tail, hbytes, hb⟩ := h
  exact ⟨b, tail ++ utf8 ds, by rw [utf8_append, hbytes]; rfl, hb⟩

def Begins (cs : List Char) : Prop :=
  ∃ gap front, cs = gap ++ front ∧ Gap gap ∧ Starts front

theorem Begins.skipSpace {cs : List Char} (h : Begins cs) (rest : List UInt8) :
    ∃ b tail, skipSpace (utf8 cs ++ rest) = b :: tail ∧ b ≠ closeBracket ∧ b ≠ closeBrace := by
  obtain ⟨gap, front, rfl, hgap, b, tail, hbytes, hspace, hb⟩ := h
  refine ⟨b, tail ++ rest, ?_, hb⟩
  rw [utf8_append, List.append_assoc, hbytes]
  exact skipSpace_gap_cons hgap hspace _

theorem utf8EncodeChar_digit {c : Char} {d : Nat} (h : IsDigit 16 c d) :
    ∃ b : UInt8, String.utf8EncodeChar c = [b] ∧ nibble? b = some d := by
  have all : ∀ k : Fin 16, (String.utf8EncodeChar (Nat.digitChar k) =
        [(Nat.digitChar k).toNat.toUInt8] ∧ nibble? (Nat.digitChar k).toNat.toUInt8 = some k.val) ∧
      String.utf8EncodeChar (Nat.digitChar k).toUpper = [(Nat.digitChar k).toUpper.toNat.toUInt8] ∧
        nibble? (Nat.digitChar k).toUpper.toNat.toUInt8 = some k.val := by
    decide
  obtain ⟨hlower, hupper⟩ := all ⟨d, h.1⟩
  rcases h.2 with rfl | rfl
  · exact ⟨_, hlower⟩
  · exact ⟨_, hupper⟩

namespace Literal

theorem escapeByte_of_kept {c : Char} (h : Kept c) {b : UInt8}
    (hb : b ∈ String.utf8EncodeChar c) : escapeByte b = [b] := by
  obtain ⟨hspace, hquote, hbackslash⟩ := h
  by_cases ascii : c.toNat < 0x80
  · have all : ∀ k : Fin 128, 0x20 ≤ k.val → Char.ofNat k ≠ '"' → Char.ofNat k ≠ '\\' →
        escapeByte k.val.toUInt8 = [k.val.toUInt8] := by
      decide +kernel
    rw [utf8EncodeChar_ascii ascii] at hb
    obtain rfl := List.mem_singleton.mp hb
    apply all ⟨c.toNat, ascii⟩ hspace
    · simpa using hquote
    · simpa using hbackslash
  · exact escapeByte_of_not_ascii (not_ascii_of_mem (Nat.not_lt.mp ascii) hb)

end Literal

end PoolUplink.Json
