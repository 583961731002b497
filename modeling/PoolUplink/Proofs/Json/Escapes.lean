import PoolUplink.Json.Shape
import PoolUplink.Proofs.Json.Characters

/-!
# Literals in any spelling

A literal is read as the text that it stands for, whichever of its characters are escaped and in
which way. Where nobody asks for the text, escapes may name anything.
-/

set_option autoImplicit false
set_option relaxedAutoImplicit false

namespace PoolUplink.Json

open PoolUplink.Json.Ascii
open PoolUplink.Text.Numeral (IsDigit)

namespace Literal

private theorem ofShort?_of_mem_shorts {letter c : Char} (h : (letter, c) ∈ shorts) :
    ∃ b d : UInt8, String.utf8EncodeChar letter = [b] ∧ String.utf8EncodeChar c = [d] ∧
      ofShort? b = some d := by
  have all : ∀ p ∈ shorts, String.utf8EncodeChar p.1 = [p.1.toNat.toUInt8] ∧
      String.utf8EncodeChar p.2 = [p.2.toNat.toUInt8] ∧
      ofShort? p.1.toNat.toUInt8 = some p.2.toNat.toUInt8 := by
    decide
  exact ⟨_, _, all _ h⟩

private theorem hex4_of_hex {digits : List Char} {n : Nat} (h : Hex digits n) (rest : List UInt8) :
    hex4 (utf8 digits ++ rest) = .ok (n, rest) := by
  obtain ⟨ds, hlength, hdigits, rfl⟩ := h
  match ds, hlength with
  | [w, x, y, z], _ =>
    cases hdigits with | cons hw hdigits =>
    cases hdigits with | cons hx hdigits =>
    cases hdigits with | cons hy hdigits =>
    cases hdigits with | cons hz hdigits =>
    cases hdigits
    obtain ⟨a, ha, hw⟩ := utf8EncodeChar_digit hw
    obtain ⟨b, hb, hx⟩ := utf8EncodeChar_digit hx
    obtain ⟨c, hc, hy⟩ := utf8EncodeChar_digit hy
    obtain ⟨d, hd, hz⟩ := utf8EncodeChar_digit hz
    simp only [utf8_cons, utf8_nil, ha, hb, hc, hd, List.cons_append, List.nil_append, hex4, hw,
      hx, hy, hz, List.reverse_cons, List.reverse_nil, Nat.ofDigits_cons, Nat.ofDigits_nil]
    congr 2
    ring

private theorem encode_toNat (c : Char) : encode c.toNat = String.utf8EncodeChar c := by
  rw [encode, Char.ofNat_toNat]

private theorem not_surrogate (c : Char) :
    isLeading c.toNat = false ∧ isTrailing c.toNat = false := by
  have valid : c.toNat < 0xD800 ∨ 0xDFFF < c.toNat ∧ c.toNat < 0x110000 := c.valid
  simp only [isLeading, isTrailing, Bool.and_eq_false_iff, decide_eq_false_iff_not]
  omega

private theorem escape_numbered {digits : List Char} {c : Char} (h : Hex digits c.toNat)
    (rest : List UInt8) :
    escape (letterU :: (utf8 digits ++ rest)) = .ok (String.utf8EncodeChar c, rest) := by
  obtain ⟨hleading, htrailing⟩ := not_surrogate c
  have hu : ofShort? letterU = none := by decide
  simp only [escape, hu, numbered, hex4_of_hex h, htrailing, hleading, encode_toNat]
  rfl

private theorem escape_pair {leading following : List Char} {c : Char} (beyond : 0x10000 ≤ c.toNat)
    (hfirst : Hex leading (0xD800 + (c.toNat - 0x10000) / 0x400))
    (hsecond : Hex following (0xDC00 + (c.toNat - 0x10000) % 0x400)) (rest : List UInt8) :
    escape (letterU :: (utf8 leading ++ backslash :: letterU :: (utf8 following ++ rest))) =
      .ok (String.utf8EncodeChar c, rest) := by
  have bound : c.toNat < 0x110000 := by
    have valid : c.toNat < 0xD800 ∨ 0xDFFF < c.toNat ∧ c.toNat < 0x110000 := c.valid
    omega
  have hu : ofShort? letterU = none := by decide
  have hleading : isLeading (0xD800 + (c.toNat - 0x10000) / 0x400) = true := by
    simp only [isLeading, Bool.and_eq_true, decide_eq_true_eq]
    omega
  have hwrong : isTrailing (0xD800 + (c.toNat - 0x10000) / 0x400) = false := by
    simp only [isTrailing, Bool.and_eq_false_iff, decide_eq_false_iff_not]
    omega
  have htrailing : isTrailing (0xDC00 + (c.toNat - 0x10000) % 0x400) = true := by
    simp only [isTrailing, Bool.and_eq_true, decide_eq_true_eq]
    omega
  have hnumber : 0x10000 + (0xD800 + (c.toNat - 0x10000) / 0x400 - 0xD800) * 0x400 +
      (0xDC00 + (c.toNat - 0x10000) % 0x400 - 0xDC00) = c.toNat := by
    omega
  have hsecondHalf : trailing (0xD800 + (c.toNat - 0x10000) / 0x400)
      (backslash :: letterU :: (utf8 following ++ rest)) = .ok (String.utf8EncodeChar c, rest) := by
    rw [trailing, if_neg (not_not_intro rfl)]
    simp only [ne_eq, not_true_eq_false, if_false, hex4_of_hex hsecond, htrailing, if_true, hnumber,
      encode_toNat]
  simp only [escape, hu, numbered, hex4_of_hex hfirst, hwrong, hleading, hsecondHalf]
  rfl

private theorem scan_plain_append {bs : List UInt8} (h : ∀ b ∈ bs, escapeByte b = [b])
    (content rest : List UInt8) :
    scan content (bs ++ rest) = scan (bs.reverse ++ content) rest := by
  induction bs generalizing content with
  | nil => rfl
  | cons b bs ih =>
    obtain ⟨hb, hbs⟩ := List.forall_mem_cons.mp h
    rw [List.cons_append, scan_plain hb, ih hbs, List.reverse_cons, List.append_assoc]
    rfl

/-- Scanning gives the text that stands between the quotes. -/
theorem scan_of_denotes {cs text : List Char} (h : Denotes cs text) (content rest : List UInt8) :
    scan content (utf8 cs ++ quote :: rest) = .ok (content.reverse ++ utf8 text, rest) := by
  -- a character goes behind what has been collected, whichever way it is written
  have collect (content : List UInt8) (c : Char) (text : List Char) :
      ((String.utf8EncodeChar c).reverse ++ content).reverse ++ utf8 text =
        content.reverse ++ utf8 (c :: text) := by
    rw [List.reverse_append, List.reverse_reverse, List.append_assoc, utf8_cons]
  induction h generalizing content with
  | nil => rw [utf8_nil, List.nil_append, scan, if_pos rfl, List.append_nil]
  | kept hkept _ ih =>
    rw [utf8_cons, List.append_assoc,
      scan_plain_append fun b hb => escapeByte_of_kept hkept hb, ih, collect]
  | short hshort _ ih =>
    obtain ⟨b, d, hletter, hc, hb⟩ := ofShort?_of_mem_shorts hshort
    have hescape (input : List UInt8) : escape (b :: input) = .ok ([d], input) := by
      rw [escape, hb]
    rw [utf8_backslash, utf8_cons, hletter, List.cons_append, List.singleton_append,
      List.cons_append, scan_escaped (hescape _), ← hc, ih, collect]
  | numbered hdigits _ ih =>
    rw [List.cons_append, List.cons_append, utf8_backslash, utf8_letterU, utf8_append,
      List.cons_append, List.cons_append, List.append_assoc,
      scan_escaped (escape_numbered hdigits _), ih, collect]
  | pair beyond hfirst hsecond _ ih =>
    simp only [List.cons_append, utf8_backslash, utf8_letterU, utf8_append, List.append_assoc]
    rw [scan_escaped (escape_pair beyond hfirst hsecond _), ih, collect]

private theorem takes_of_denotes {cs : List Char} {s : String} (h : Denotes cs s.toList)
    (rest : List UInt8) : Takes (read (utf8 cs ++ quote :: rest)) s rest := by
  have hscan := scan_of_denotes h [] rest
  rw [List.reverse_nil, List.nil_append, ← bytes_eq_utf8] at hscan
  exact takes_of_scan hscan

end Literal

namespace Skim

private theorem literal_plain {b : UInt8} (h : Literal.escapeByte b = [b]) (rest : List UInt8) :
    literal (b :: rest) = literal rest := by
  obtain ⟨hq, hb, hc⟩ := Literal.plain_of_escapeByte h
  rw [literal.eq_def]
  dsimp only
  rw [if_neg hq, if_neg hb, if_neg hc]

private theorem literal_plain_append {bs : List UInt8} (h : ∀ b ∈ bs, Literal.escapeByte b = [b])
    (rest : List UInt8) : literal (bs ++ rest) = literal rest := by
  induction bs with
  | nil => rfl
  | cons b bs ih =>
    obtain ⟨hb, hbs⟩ := List.forall_mem_cons.mp h
    rw [List.cons_append, literal_plain hb, ih hbs]

private theorem literal_short {b d : UInt8} (h : ofShort? b = some d) (rest : List UInt8) :
    literal (backslash :: b :: rest) = literal rest := by
  rw [literal.eq_def]
  dsimp only
  rw [if_neg (by decide), if_pos rfl, h]
  exact if_pos rfl

private theorem literal_numbered {digits : List Char} {n : Nat} (h : Literal.Hex digits n)
    (rest : List UInt8) :
    literal (backslash :: letterU :: (utf8 digits ++ rest)) = literal rest := by
  rw [literal.eq_def]
  dsimp only
  rw [if_neg (by decide), if_pos rfl, if_neg (by decide), if_pos rfl]
  split
  · rename_i hfault
    rw [Literal.hex4_of_hex h] at hfault
    cases hfault
  · rename_i hread
    rw [Literal.hex4_of_hex h] at hread
    cases hread
    rfl

theorem literal_of_content {cs : List Char} (h : Literal.Content cs) (rest : List UInt8) :
    literal (utf8 cs ++ quote :: rest) = .ok rest := by
  induction h with
  | nil =>
    rw [utf8_nil, List.nil_append, literal.eq_def]
    exact if_pos rfl
  | kept hkept _ ih =>
    rw [utf8_cons, List.append_assoc,
      literal_plain_append fun b hb => Literal.escapeByte_of_kept hkept hb, ih]
  | short hshort _ ih =>
    obtain ⟨b, d, hletter, -, hb⟩ := Literal.ofShort?_of_mem_shorts hshort
    rw [utf8_backslash, utf8_cons, hletter, List.cons_append, List.singleton_append,
      List.cons_append, literal_short hb, ih]
  | numbered hdigits _ ih =>
    rw [List.cons_append, List.cons_append, utf8_backslash, utf8_letterU, utf8_append,
      List.cons_append, List.cons_append, List.append_assoc, literal_numbered hdigits, ih]

end Skim

namespace Literal.Spells

variable {gap literal : List Char} {s : String}

theorem starts (h : Spells literal s) : Starts literal := by
  obtain ⟨content, rfl, -⟩ := h
  exact starts_cons (by decide) (by decide) _

private theorem skipSpace (hgap : Gap gap) (h : Spells literal s) (rest : List UInt8) :
    ∃ content, Denotes content s.toList ∧ Ascii.skipSpace (utf8 gap ++ (utf8 literal ++ rest)) =
      quote :: (utf8 content ++ quote :: rest) := by
  obtain ⟨content, rfl, hcontent⟩ := h
  refine ⟨content, hcontent, ?_⟩
  rw [skipSpace_gap hgap, List.cons_append, utf8_quote, List.cons_append,
    skipSpace_cons (by decide)]
  simp

theorem takes_text (hgap : Gap gap) (h : Spells literal s) (rest : List UInt8) :
    Takes (Shape.text (utf8 gap ++ (utf8 literal ++ rest))) s rest := by
  obtain ⟨content, hcontent, hspace⟩ := h.skipSpace hgap rest
  obtain ⟨_, hread⟩ := takes_of_denotes hcontent rest
  refine .onByte_of_skipSpace hspace ?_
  rw [if_pos rfl, hread]
  exact ⟨_, rfl⟩

theorem takes_name (hgap : Gap gap) (h : Spells literal s) (rest : List UInt8) :
    Takes (Reader.name (utf8 gap ++ (utf8 literal ++ rest))) s rest := by
  obtain ⟨content, hcontent, hspace⟩ := h.skipSpace hgap rest
  obtain ⟨_, hread⟩ := takes_of_denotes hcontent rest
  refine .onByte_of_skipSpace hspace ?_
  rw [if_pos rfl, hread]
  exact ⟨_, rfl⟩

end Literal.Spells

end PoolUplink.Json
