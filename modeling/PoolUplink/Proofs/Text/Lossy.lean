import Mathlib.Tactic.IntervalCases
import PoolUplink.Text.Lossy

/-!
# Text is shown as it is

The bytes of a character are scanned to that character, whatever its length, so the bytes of a
text are shown as that text. Nothing is replaced: the ranges that a lead byte gives for the next
byte leave out only what no character has there.
-/

set_option autoImplicit false
set_option relaxedAutoImplicit false

namespace PoolUplink.Text.Lossy

theorem not_ascii_ofNat {n : Nat} (low : 0x80 ≤ n) (high : n < 256) : ¬ UInt8.ofNat n < 0x80 := by
  intro small
  have := UInt8.lt_iff_toNat_lt.mp small
  rw [UInt8.toNat_ofNat_of_lt' high] at this
  exact absurd this (Nat.not_lt.mpr low)

private theorem lead?_two {k : Nat} (low : 2 ≤ k) (high : k < 32) :
    lead? (UInt8.ofNat (k + 0xC0)) = some ⟨1, 0x80, 0xBF, k⟩ := by
  interval_cases k <;> rfl

private theorem lead?_three {k : Nat} (high : k < 16) :
    lead? (UInt8.ofNat (k + 0xE0)) =
      some ⟨2, if k = 0 then 0xA0 else 0x80, if k = 13 then 0x9F else 0xBF, k⟩ := by
  interval_cases k <;> rfl

private theorem lead?_four {k : Nat} (high : k < 5) :
    lead? (UInt8.ofNat (k + 0xF0)) =
      some ⟨3, if k = 0 then 0x90 else 0x80, if k = 4 then 0x8F else 0xBF, k⟩ := by
  interval_cases k <;> rfl

section Steps

variable (shown : List Char) (rest : List UInt8)

private theorem scan_ascii {n : Nat} (h : n < 0x80) :
    scan shown none (UInt8.ofNat n :: rest) = scan (Char.ofNat n :: shown) none rest := by
  have hn : (UInt8.ofNat n).toNat = n := UInt8.toNat_ofNat_of_lt' (Nat.lt_trans h (by decide))
  have hb : UInt8.ofNat n < 0x80 := UInt8.lt_iff_toNat_lt.mpr (hn.symm ▸ h)
  rw [scan, if_pos hb, hn]

private theorem scan_lead {n : Nat} {lead : Lead} (low : 0x80 ≤ n) (high : n < 256)
    (h : lead? (UInt8.ofNat n) = some lead) :
    scan shown none (UInt8.ofNat n :: rest) = scan shown (some lead) rest := by
  rw [scan, if_neg (not_ascii_ofNat low high), h]

private theorem scan_further {lead : Lead} {n : Nat} (low : lead.low.toNat ≤ n % 64 + 0x80)
    (high : n % 64 + 0x80 ≤ lead.high.toNat) (bits : lead.bits = n / 64) :
    scan shown (some lead) (UInt8.ofNat (n % 0x40 + 0x80) :: rest) =
      if lead.more ≤ 1 then scan (Char.ofNat n :: shown) none rest
      else scan shown (some ⟨lead.more - 1, 0x80, 0xBF, n⟩) rest := by
  have hb : (UInt8.ofNat (n % 0x40 + 0x80)).toNat = n % 0x40 + 0x80 :=
    UInt8.toNat_ofNat_of_lt' (show n % 0x40 + 0x80 < 256 by omega)
  have hrange : (lead.low ≤ UInt8.ofNat (n % 0x40 + 0x80) &&
      UInt8.ofNat (n % 0x40 + 0x80) ≤ lead.high) = true := by
    simp only [UInt8.le_iff_toNat_le, hb, Bool.and_eq_true, decide_eq_true_eq]
    exact ⟨low, high⟩
  have hbits : n / 64 * 64 + (n % 0x40 + 0x80 - 0x80) = n := by omega
  rw [scan, if_pos hrange, hb, bits, hbits]

private theorem scan_one (n : Nat) :
    scan shown (some ⟨1, 0x80, 0xBF, n / 64⟩) (UInt8.ofNat (n % 0x40 + 0x80) :: rest) =
      scan (Char.ofNat n :: shown) none rest :=
  scan_further shown rest (Nat.le_add_left _ _) (show n % 64 + 0x80 ≤ 0xBF by omega) rfl

private theorem scan_two {low high : UInt8} {n : Nat} (hlow : low.toNat ≤ n / 64 % 64 + 0x80)
    (hhigh : n / 64 % 64 + 0x80 ≤ high.toNat) :
    scan shown (some ⟨2, low, high, n / 64 / 64⟩)
      (UInt8.ofNat (n / 64 % 0x40 + 0x80) :: UInt8.ofNat (n % 0x40 + 0x80) :: rest) =
      scan (Char.ofNat n :: shown) none rest :=
  (scan_further shown _ hlow hhigh rfl).trans (scan_one shown rest n)

private theorem scan_three {low high : UInt8} {n : Nat} (hlow : low.toNat ≤ n / 64 / 64 % 64 + 0x80)
    (hhigh : n / 64 / 64 % 64 + 0x80 ≤ high.toNat) :
    scan shown (some ⟨3, low, high, n / 64 / 64 / 64⟩)
      (UInt8.ofNat (n / 64 / 64 % 0x40 + 0x80) :: UInt8.ofNat (n / 64 % 0x40 + 0x80) ::
        UInt8.ofNat (n % 0x40 + 0x80) :: rest) =
      scan (Char.ofNat n :: shown) none rest :=
  (scan_further shown _ hlow hhigh rfl).trans
    (scan_two shown rest (Nat.le_add_left _ _) (show n / 64 % 64 + 0x80 ≤ 0xBF by omega))

end Steps

/-- The bytes of a character are scanned to it. -/
theorem scan_encodeChar (shown : List Char) (c : Char) (rest : List UInt8) :
    scan shown none (String.utf8EncodeChar c ++ rest) = scan (c :: shown) none rest := by
  have valid : c.toNat < 0xD800 ∨ 0xDFFF < c.toNat ∧ c.toNat < 0x110000 := c.valid
  have hc : Char.ofNat c.toNat = c := Char.ofNat_toNat c
  simp only [String.utf8EncodeChar, Char.toNat_val]
  generalize c.toNat = n at *
  subst hc
  have h2 : n / 4096 = n / 64 / 64 := by omega
  have h3 : n / 262144 = n / 64 / 64 / 64 := by omega
  rw [h2, h3]
  -- one case for each number of bytes
  split
  · exact scan_ascii shown rest (by omega)
  split
  · rw [Nat.mod_eq_of_lt (show n / 64 < 0x20 by omega)]
    refine (scan_lead shown _ (by omega) (by omega) (lead?_two (by omega) (by omega))).trans ?_
    exact scan_one shown rest n
  split
  · rw [Nat.mod_eq_of_lt (show n / 64 / 64 < 0x10 by omega)]
    refine (scan_lead shown _ (by omega) (by omega) (lead?_three (by omega))).trans ?_
    refine scan_two shown rest ?_ ?_
    · split
      · exact show 0xA0 ≤ n / 64 % 64 + 0x80 by omega
      · exact Nat.le_add_left _ _
    · split
      · exact show n / 64 % 64 + 0x80 ≤ 0x9F by omega
      · exact show n / 64 % 64 + 0x80 ≤ 0xBF by omega
  · rw [Nat.mod_eq_of_lt (show n / 64 / 64 / 64 < 0x08 by omega)]
    refine (scan_lead shown _ (by omega) (by omega) (lead?_four (by omega))).trans ?_
    refine scan_three shown rest ?_ ?_
    · split
      · exact show 0x90 ≤ n / 64 / 64 % 64 + 0x80 by omega
      · exact Nat.le_add_left _ _
    · split
      · exact show n / 64 / 64 % 64 + 0x80 ≤ 0x8F by omega
      · exact show n / 64 / 64 % 64 + 0x80 ≤ 0xBF by omega

private theorem scan_encode (shown cs : List Char) :
    scan shown none (cs.flatMap String.utf8EncodeChar) = shown.reverse ++ cs := by
  induction cs generalizing shown with
  | nil => exact (List.append_nil _).symm
  | cons c cs ih =>
    rw [List.flatMap_cons, scan_encodeChar, ih, List.reverse_cons, List.append_assoc,
      List.singleton_append]

theorem text_encode (cs : List Char) :
    text (cs.flatMap String.utf8EncodeChar) = String.ofList cs := by
  rw [text, chars, scan_encode, List.reverse_nil, List.nil_append]

end PoolUplink.Text.Lossy
