import Mathlib.Data.List.Basic
import PoolUplink.Proofs.Json.RoundTrip
import PoolUplink.Proofs.Text.Lossy

/-!
# The text of a value

What is written of a value are the bytes of a text: a literal escapes some characters of one byte
by others and keeps the bytes of all longer ones, and everything else is ASCII. So the text of a
value has the bytes that are written of it.
-/

set_option autoImplicit false
set_option relaxedAutoImplicit false

namespace PoolUplink.Json

open PoolUplink.Json.Ascii

namespace Ascii

theorem bytes_eq (s : String) : bytes s = s.toList.flatMap String.utf8EncodeChar := by
  have h : s.toByteArray = (s.toList.flatMap String.utf8EncodeChar).toByteArray :=
    String.utf8Encode_toList.symm
  rw [bytes, String.toUTF8_eq_toByteArray, h, List.data_toByteArray]

private theorem bytes_ofList (cs : List Char) :
    bytes (String.ofList cs) = cs.flatMap String.utf8EncodeChar := by
  rw [bytes_eq, String.toList_ofList]

/-- Whether bytes are those of a text. -/
def Textual (bs : List UInt8) : Prop :=
  ∃ cs : List Char, bs = cs.flatMap String.utf8EncodeChar

private theorem textual_bytes (s : String) : Textual (bytes s) := ⟨s.toList, bytes_eq s⟩

private theorem Textual.append {bs cs : List UInt8} (hb : Textual bs) (hc : Textual cs) :
    Textual (bs ++ cs) := by
  obtain ⟨before, rfl⟩ := hb
  obtain ⟨behind, rfl⟩ := hc
  exact ⟨before ++ behind, List.flatMap_append.symm⟩

private theorem textual_flatMap {α : Type} {f : α → List UInt8} (xs : List α)
    (h : ∀ x ∈ xs, Textual (f x)) : Textual (xs.flatMap f) := by
  induction xs with
  | nil => exact ⟨[], rfl⟩
  | cons x xs ih =>
    rw [List.forall_mem_cons] at h
    exact h.1.append (ih h.2)

private theorem textual_singleton {b : UInt8} (h : b < 0x80) : Textual [b] := by
  have all : ∀ k : Fin 256, UInt8.ofNat k < 0x80 →
      [UInt8.ofNat k] = Literal.encode (UInt8.ofNat k).toNat := by decide +kernel
  have hb : [b] = Literal.encode b.toNat := forall_byte b all h
  refine ⟨[Char.ofNat b.toNat], ?_⟩
  rw [List.flatMap_singleton, hb, Literal.encode]

private theorem textual_of_ascii {bs : List UInt8} (h : ∀ b ∈ bs, b < 0x80) : Textual bs := by
  have := textual_flatMap (f := fun b => [b]) bs fun b hb => textual_singleton (h b hb)
  rwa [List.flatMap_singleton'] at this

theorem utf8EncodeChar_ascii {c : Char} (h : c.toNat < 0x80) :
    String.utf8EncodeChar c = [c.toNat.toUInt8] := by
  simp only [String.utf8EncodeChar, Char.toNat_val]
  exact if_pos (Nat.le_of_lt_succ h)

theorem not_ascii_of_mem {c : Char} (hc : 0x80 ≤ c.toNat) {b : UInt8}
    (hb : b ∈ String.utf8EncodeChar c) : ¬ b < 0x80 := by
  have valid : c.toNat < 0xD800 ∨ 0xDFFF < c.toNat ∧ c.toNat < 0x110000 := c.valid
  simp only [String.utf8EncodeChar, Char.toNat_val] at hb
  generalize c.toNat = n at *
  have large {k : Nat} (low : 0x80 ≤ k) (high : k < 256) (h : b = UInt8.ofNat k) : ¬ b < 0x80 :=
    h ▸ Text.Lossy.not_ascii_ofNat low high
  split at hb
  · omega
  split at hb
  · simp only [List.mem_cons, List.not_mem_nil, or_false] at hb
    rcases hb with hb | hb <;> exact large (by omega) (by omega) hb
  split at hb
  · simp only [List.mem_cons, List.not_mem_nil, or_false] at hb
    rcases hb with hb | hb | hb <;> exact large (by omega) (by omega) hb
  · simp only [List.mem_cons, List.not_mem_nil, or_false] at hb
    rcases hb with hb | hb | hb | hb <;> exact large (by omega) (by omega) hb

end Ascii

namespace Literal

private theorem ascii_of_mem_escapeByte {b : UInt8} (h : b < 0x80) :
    ∀ c ∈ escapeByte b, c < 0x80 := by
  revert h
  exact forall_byte b (by decide +kernel)

theorem escapeByte_of_not_ascii {b : UInt8} (h : ¬ b < 0x80) : escapeByte b = [b] := by
  revert h
  exact forall_byte b (by decide +kernel)

private theorem textual_escape (c : Char) :
    Textual ((String.utf8EncodeChar c).flatMap escapeByte) := by
  by_cases hc : c.toNat < 0x80
  · have hb : c.toNat.toUInt8 < 0x80 := UInt8.lt_iff_toNat_lt.mpr (by
      rwa [UInt8.toNat_ofNat_of_lt' (Nat.lt_trans hc (by decide))])
    rw [utf8EncodeChar_ascii hc, List.flatMap_singleton]
    exact textual_of_ascii (ascii_of_mem_escapeByte hb)
  · have hkept : (String.utf8EncodeChar c).flatMap escapeByte = String.utf8EncodeChar c := by
      have hescape : ∀ b ∈ String.utf8EncodeChar c, escapeByte b = [b] :=
        fun b hb => escapeByte_of_not_ascii (not_ascii_of_mem (Nat.not_lt.mp hc) hb)
      rw [List.flatMap_congr hescape, List.flatMap_singleton']
    rw [hkept]
    exact ⟨[c], (List.flatMap_singleton ..).symm⟩

private theorem textual_write (s : String) : Textual (write s) := by
  have hcontent : Textual ((bytes s).flatMap escapeByte) := by
    rw [bytes_eq, List.flatMap_assoc]
    exact textual_flatMap _ fun c _ => textual_escape c
  have hquote : Textual [quote] := textual_singleton (by decide)
  exact (hquote.append hcontent).append hquote

end Literal

private theorem Number.textual_write (n : Int) (exact : Exact n) :
    Textual (whole n exact).write := by
  have hdigits (k : Nat) : Textual (Numeral.decimalBytes k) := by
    refine textual_of_ascii fun b hb => ?_
    have hdigit := Numeral.digit?_of_mem_decimalBytes hb
    revert hdigit
    exact forall_byte b (by decide +kernel)
  cases n with
  | ofNat k => exact hdigits k
  | negSucc k =>
    have hminus : Textual [minus] := textual_singleton (by decide)
    exact hminus.append (hdigits (k + 1))

namespace Value

mutual

private theorem textual_write : (v : Value) → v.integral = true → Textual v.write
  | null, _ => textual_bytes "null"
  | bool _, _ => textual_bytes _
  | number (.whole n exact), _ => Number.textual_write n exact
  | number (.double _), hv => by cases hv
  | string s, _ => Literal.textual_write s
  | array vs, hv =>
    have hitems := textual_writeItems vs hv
    ((textual_singleton (by decide)).append hitems).append (textual_singleton (by decide))
  | object ms, hv =>
    have hmembers := textual_writeMembers ms hv
    ((textual_singleton (by decide)).append hmembers).append (textual_singleton (by decide))

private theorem textual_writeItems : (vs : List Value) → integralItems vs = true →
    Textual (writeItems vs)
  | [], _ => ⟨[], rfl⟩
  | [v], hv => textual_write v (Bool.and_eq_true_iff.mp hv).1
  | v :: w :: vs, hv => by
    obtain ⟨hv, hvs⟩ := Bool.and_eq_true_iff.mp hv
    have hcomma : Textual [comma] := textual_singleton (by decide)
    exact (textual_write v hv).append (hcomma.append (textual_writeItems (w :: vs) hvs))

private theorem textual_writeMembers : (ms : List (String × Value)) → integralMembers ms = true →
    Textual (writeMembers ms)
  | [], _ => ⟨[], rfl⟩
  | [(name, v)], hv => by
    have hvalue := textual_write v (Bool.and_eq_true_iff.mp hv).1
    have hcolon : Textual [colon] := textual_singleton (by decide)
    exact (Literal.textual_write name).append (hcolon.append hvalue)
  | (name, v) :: m :: ms, hv => by
    obtain ⟨hv, hms⟩ := Bool.and_eq_true_iff.mp hv
    have hvalue := textual_write v hv
    have hcolon : Textual [colon] := textual_singleton (by decide)
    have hcomma : Textual [comma] := textual_singleton (by decide)
    have hrest := textual_writeMembers (m :: ms) hms
    have hmember := (Literal.textual_write name).append (hcolon.append hvalue)
    rw [writeMembers]
    exact hmember.append (hcomma.append hrest)

end

theorem bytes_text {v : Value} (hv : v.integral = true) : bytes v.text = v.write := by
  obtain ⟨cs, hcs⟩ := textual_write v hv
  rw [text, hcs, Text.Lossy.text_encode, bytes_ofList]

theorem read_text {v : Value} (hv : v.integral = true) (nested : v.depth ≤ depthLimit) :
    read (bytes v.text) = .ok v := by
  have htakes : Takes (readTo depthLimit (v.write ++ [])) v [] :=
    takes_write v hv nested trivial
  rw [List.append_nil] at htakes
  rw [bytes_text hv]
  exact htakes.run rfl

end Value

end PoolUplink.Json
