import Mathlib.Data.Nat.Digits.Defs
import PoolUplink.Json.Printer
import PoolUplink.Proofs.Json.Takes

/-!
# Whole numbers are read back

The digits of a number below `2 ^ 64` are gathered to that number, the first of them is no zero
unless it is the only one, and what follows does not go on the numeral. So a whole number is read
back as the same whole number and not as a double.
-/

set_option autoImplicit false
set_option relaxedAutoImplicit false

namespace PoolUplink.Json

open PoolUplink.Json.Ascii

namespace Numeral

/-- Whether a numeral before these bytes ends there: no digit, point or exponent is next. -/
def Stops : List UInt8 → Prop
  | [] => True
  | b :: _ => digit? b = none ∧ b ≠ point ∧ startsExponent b = false

def decimalBytes (n : Nat) : List UInt8 :=
  (Text.Numeral.decimal n).map fun c => c.toNat.toUInt8

def digitByte (d : Nat) : UInt8 := (Nat.digitChar d).toNat.toUInt8

private theorem digit?_digitByte {d : Nat} (h : d < 10) : digit? (digitByte d) = some d := by
  have all : ∀ k : Fin 10, digit? (digitByte k) = some k.val := by decide
  exact all ⟨d, h⟩

private theorem decimalBytes_of_lt {n : Nat} (h : n < 10) : decimalBytes n = [digitByte n] := by
  rw [decimalBytes, Text.Numeral.decimal, Nat.toDigits_of_lt_base h]
  rfl

private theorem decimalBytes_of_le {n : Nat} (h : 10 ≤ n) :
    decimalBytes n = decimalBytes (n / 10) ++ [digitByte (n % 10)] := by
  rw [decimalBytes, Text.Numeral.decimal, Nat.toDigits_of_base_le (by decide) h, List.map_append]
  rfl

/-- Induction on the digits of a number from the back. -/
@[elab_as_elim]
private theorem digitRec {motive : Nat → Prop} (last : ∀ n < 10, motive n)
    (more : ∀ n, 10 ≤ n → motive (n / 10) → motive n) (n : Nat) : motive n := by
  induction n using Nat.strongRecOn with
  | ind n ih =>
    by_cases hn : n < 10
    · exact last n hn
    · exact more n (Nat.not_lt.mp hn) (ih (n / 10) (by omega))

theorem decimalBytes_ne_nil (n : Nat) : decimalBytes n ≠ [] := by
  induction n using digitRec with
  | last n hn =>
    rw [decimalBytes_of_lt hn]
    exact List.cons_ne_nil _ _
  | more n hn ih =>
    rw [decimalBytes_of_le hn]
    exact List.append_ne_nil_of_left_ne_nil ih _

theorem digit?_of_mem_decimalBytes {n : Nat} {b : UInt8} (h : b ∈ decimalBytes n) :
    (digit? b).isSome = true := by
  induction n using digitRec with
  | last n hn =>
    rw [decimalBytes_of_lt hn] at h
    obtain rfl := List.mem_singleton.mp h
    rw [digit?_digitByte hn]
    rfl
  | more n hn ih =>
    rw [decimalBytes_of_le hn] at h
    rcases List.mem_append.mp h with h | h
    · exact ih h
    · obtain rfl := List.mem_singleton.mp h
      rw [digit?_digitByte (Nat.mod_lt n (by decide))]
      rfl

private theorem gather_digit {value count d : Nat} {b : UInt8} (hb : digit? b = some d)
    (fits : value * 10 + d < UInt64.size) (rest : List UInt8) :
    gather value count (b :: rest) = gather (value * 10 + d) (count + 1) rest := by
  rw [gather, hb]
  exact if_pos fits

private theorem gather_of_stops {value count : Nat} {rest : List UInt8} (h : Stops rest) :
    gather value count rest = ⟨value, count, rest⟩ := by
  cases rest with
  | nil => rfl
  | cons b rest => rw [gather, h.1]

private theorem skip_of_stops {count : Nat} {rest : List UInt8} (h : Stops rest) :
    skip count rest = (count, rest) := by
  cases rest with
  | nil => rfl
  | cons b rest =>
    rw [skip, h.1]
    rfl

private theorem exists_first_digit {n : Nat} (positive : 0 < n) (fits : n < UInt64.size) :
    ∃ (b : UInt8) (tail : List UInt8) (d : Nat),
      decimalBytes n = b :: tail ∧ digit? b = some (d + 1) ∧
        ∀ rest, ∃ count, gather (d + 1) 1 (tail ++ rest) = gather n count rest := by
  -- digits come off the back of a number, while they are gathered from the front
  induction n using digitRec with
  | last n hn =>
    obtain ⟨d, rfl⟩ := Nat.exists_eq_succ_of_ne_zero (Nat.ne_of_gt positive)
    exact ⟨_, [], d, decimalBytes_of_lt hn, digit?_digitByte hn, fun rest => ⟨1, rfl⟩⟩
  | more n hn ih =>
    obtain ⟨b, tail, d, hbytes, hb, hgather⟩ := ih (by omega) (by omega)
    refine ⟨b, tail ++ [digitByte (n % 10)], d, ?_, hb, fun rest => ?_⟩
    · rw [decimalBytes_of_le hn, hbytes]
      rfl
    · have hsplit : n / 10 * 10 + n % 10 = n := Nat.div_add_mod' n 10
      have hlast : digit? (digitByte (n % 10)) = some (n % 10) :=
        digit?_digitByte (Nat.mod_lt n (by decide))
      obtain ⟨count, h⟩ := hgather (digitByte (n % 10) :: rest)
      refine ⟨count + 1, ?_⟩
      rw [List.append_assoc, List.singleton_append, h, gather_digit hlast (by omega), hsplit]

private theorem integerPart_decimalBytes {n : Nat} (fits : n < UInt64.size) {rest : List UInt8}
    (h : Stops rest) : integerPart (decimalBytes n ++ rest) = .ok (n, 0, rest) := by
  rcases Nat.eq_zero_or_pos n with rfl | positive
  · have hzero : digit? (digitByte 0) = some 0 := digit?_digitByte (by decide)
    rw [decimalBytes_of_lt (by decide), List.singleton_append]
    unfold integerPart
    cases rest with
    | nil => simp only [hzero]
    | cons b rest => simp [hzero, h.1]
  · obtain ⟨b, tail, d, hbytes, hb, hgather⟩ := exists_first_digit positive fits
    obtain ⟨count, hcount⟩ := hgather rest
    rw [hbytes, List.cons_append]
    unfold integerPart
    simp only [hb, hcount, gather_of_stops h, skip_of_stops h]

private theorem withExponent_of_stops {value : Nat} {before : Int} {plain : Bool}
    {rest : List UInt8} (h : Stops rest) :
    withExponent value before plain rest = .ok (⟨value, before, plain⟩, rest) := by
  cases rest with
  | nil => rfl
  | cons b rest =>
    rw [withExponent, h.2.2]
    rfl

private theorem decimal_decimalBytes {n : Nat} (fits : n < UInt64.size) {rest : List UInt8}
    (h : Stops rest) : decimal (decimalBytes n ++ rest) = .ok (⟨n, 0, true⟩, rest) := by
  rw [decimal, integerPart_decimalBytes fits h]
  dsimp only
  cases rest with
  | nil => rfl
  | cons b rest =>
    dsimp only
    rw [if_neg h.2.1, withExponent_of_stops h]
    rfl

private theorem takes_read {input rest : List UInt8} {negative : Bool} {digits : List UInt8}
    {d : Decimal} {n : Number} (hsign : sign input = (negative, digits))
    (hdecimal : decimal digits = .ok (d, rest)) (hnumber : number negative d = .ok n) :
    Takes (read input) n rest := by
  have hd : decimal (sign input).2 = .ok (d, rest) := by
    rw [hsign]
    exact hdecimal
  have hn : number (sign input).1 d = .ok n := by
    rw [hsign]
    exact hnumber
  unfold read
  split
  · rename_i he
    rw [hd] at he
    cases he
  · rename_i ho
    rw [hd] at ho
    cases ho
    rw [hn]
    exact ⟨_, rfl⟩

private theorem number_whole {negative : Bool} {value : Nat} {n : Int}
    (hn : (if negative then -(value : Int) else value) = n) (hz : negative = true → value ≠ 0)
    (exact : Exact n) : number negative ⟨value, 0, true⟩ = .ok (.whole n exact) := by
  subst hn
  exact dif_pos ⟨rfl, hz, exact⟩

private theorem sign_decimalBytes (n : Nat) (rest : List UInt8) :
    sign (decimalBytes n ++ rest) = (false, decimalBytes n ++ rest) := by
  cases hbytes : decimalBytes n with
  | nil => exact absurd hbytes (decimalBytes_ne_nil n)
  | cons b tail =>
    have hb : b ≠ minus := by
      rintro rfl
      have := digit?_of_mem_decimalBytes (hbytes ▸ List.mem_cons_self)
      exact absurd this (by decide)
    exact if_neg hb

/-- A whole number is read back, whatever follows that does not go on it. -/
theorem takes_whole (n : Int) (exact : Exact n) {rest : List UInt8} (h : Stops rest) :
    Takes (read ((Number.whole n exact).write ++ rest)) (.whole n exact) rest := by
  have bounds : Int64.minValue.toInt ≤ n ∧ n < UInt64.size := exact
  have hmin : -(UInt64.size : Int) < Int64.minValue.toInt := by decide
  cases n with
  | ofNat k =>
    have fits : k < UInt64.size := Int.ofNat_lt.mp bounds.2
    have hnumber : number false ⟨k, 0, true⟩ = .ok (.whole (.ofNat k) exact) :=
      number_whole (if_neg Bool.false_ne_true) (fun h => absurd h Bool.false_ne_true) exact
    exact takes_read (sign_decimalBytes k rest) (decimal_decimalBytes fits h) hnumber
  | negSucc k =>
    have fits : k + 1 < UInt64.size := by omega
    have hsign : sign ((Number.whole (.negSucc k) exact).write ++ rest) =
        (true, decimalBytes (k + 1) ++ rest) := rfl
    have hnumber : number true ⟨k + 1, 0, true⟩ = .ok (.whole (.negSucc k) exact) :=
      number_whole (if_pos rfl) (fun _ => Nat.succ_ne_zero k) exact
    exact takes_read hsign (decimal_decimalBytes fits h) hnumber

end Numeral

end PoolUplink.Json
