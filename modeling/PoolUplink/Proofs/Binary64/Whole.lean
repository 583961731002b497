import PoolUplink.Binary64.Basic
import Mathlib.Algebra.Order.Field.Power
import Mathlib.Data.Rat.Floor
import Mathlib.Tactic.Positivity
import Mathlib.Tactic.Ring

/-!
# Whole numbers at double precision

What a double is worth as a rational number. Truncation takes that toward zero, and every whole
number of at most 53 bits is among the doubles, so that nothing is lost of it.
-/

set_option autoImplicit false
set_option relaxedAutoImplicit false

namespace PoolUplink.Binary64

/-- What a double is worth. -/
def value (x : Binary64) : ℚ :=
  (if x.negative then -1 else 1) * (x.significand * 2 ^ x.exponent)

def towardZero (q : ℚ) : Int :=
  if q < 0 then ⌈q⌉ else ⌊q⌋

theorem towardZero_of_nonneg {q : ℚ} (h : 0 ≤ q) : towardZero q = ⌊q⌋ :=
  if_neg (not_lt.mpr h)

private theorem towardZero_neg {q : ℚ} (h : 0 ≤ q) : towardZero (-q) = -⌊q⌋ := by
  unfold towardZero
  split
  · rw [Int.ceil_neg]
  · rename_i hq
    obtain rfl : q = 0 := by linarith
    simp

private theorem up_natCast (n : Nat) : up (n : Int) = 2 ^ n := rfl

private theorem up_of_nonpos {e : Int} (h : e ≤ 0) : up e = 1 := by
  rw [up, Int.toNat_of_nonpos h]

private theorem two_zpow_eq (e : Int) : (2 : ℚ) ^ e = (up e : ℚ) / (up (-e) : ℚ) := by
  cases e with
  | ofNat n =>
    rw [Int.ofNat_eq_natCast, up_natCast, up_of_nonpos (by omega)]
    simp
  | negSucc n =>
    rw [Int.negSucc_eq, neg_neg, up_of_nonpos (by omega), zpow_neg]
    norm_cast
    rw [up_natCast]
    simp

private theorem floor_magnitude (m : Nat) (e : Int) :
    ⌊(m : ℚ) * 2 ^ e⌋ = ((m * up e / up (-e) : Nat) : Int) := by
  rw [two_zpow_eq, ← mul_div_assoc]
  exact_mod_cast Rat.floor_natCast_div_natCast (m * up e) (up (-e))

theorem truncate_eq (x : Binary64) : x.truncate = towardZero x.value := by
  have nonneg : (0 : ℚ) ≤ (x.significand : ℚ) * 2 ^ x.exponent := by positivity
  unfold truncate value
  dsimp only
  rw [← floor_magnitude]
  cases x.negative with
  | true => rw [if_pos rfl, if_pos rfl, neg_one_mul, towardZero_neg nonneg]
  | false =>
    rw [if_neg Bool.false_ne_true, if_neg Bool.false_ne_true, one_mul,
      towardZero_of_nonneg nonneg]

private theorem roundRatio_one (n : Nat) : roundRatio n 1 = n := by
  simp [roundRatio, Nat.mod_one]

private theorem floorLog2_one {n : Nat} (h : n ≠ 0) : floorLog2 n 1 = n.log2 := by
  have hone : Nat.log2 1 = 0 := by decide
  have hlog : up (n.log2 : Int) ≤ n := Nat.log2_self_le h
  unfold floorLog2
  simp only [hone, Nat.one_mul, Nat.cast_zero, sub_zero]
  rw [up_of_nonpos (e := -(n.log2 : Int)) (by omega), Nat.mul_one, if_pos hlog]

private theorem ofNat_of_lt {n : Nat} (positive : n ≠ 0) (h : n < 2 ^ 53) :
    ofNat n = ⟨false, n * 2 ^ (52 - n.log2), n.log2 - 52⟩ := by
  have hbits : n.log2 < 53 := (Nat.log2_lt positive).mpr h
  have hfits : n * 2 ^ (52 - n.log2) < 2 ^ 53 := by
    calc n * 2 ^ (52 - n.log2) < 2 ^ (n.log2 + 1) * 2 ^ (52 - n.log2) :=
          Nat.mul_lt_mul_of_pos_right Nat.lt_log2_self (Nat.two_pow_pos _)
      _ = 2 ^ 53 := by rw [← Nat.pow_add, show n.log2 + 1 + (52 - n.log2) = 53 by omega]
  have hexponent : max leastExponent (floorLog2 n 1 - (precision - 1 : Nat)) =
      (n.log2 : Int) - 52 := by
    rw [floorLog2_one positive]
    unfold leastExponent precision
    omega
  have hshift : up (-((n.log2 : Int) - 52)) = 2 ^ (52 - n.log2) := by
    rw [← up_natCast, show -((n.log2 : Int) - 52) = ((52 - n.log2 : Nat) : Int) by omega]
  have hsignificand : n * 2 ^ (52 - n.log2) ≠ 0 := by positivity
  have hcarry : ¬ n * 2 ^ (52 - n.log2) = Nat.pow 2 precision := hfits.ne
  have hgreatest : ¬ greatestExponent < (n.log2 : Int) - 52 := by
    unfold greatestExponent
    omega
  unfold ofNat ofRatio?
  simp only [if_neg positive, hexponent, up_of_nonpos (show (n.log2 : Int) - 52 ≤ 0 by omega),
    hshift, Nat.one_mul, roundRatio_one, if_neg hcarry, if_neg hsignificand, if_neg hgreatest,
    Option.getD_some]

/-- Nothing is lost of a whole number up to the power of two behind the greatest significand. -/
theorem value_ofNat {n : Nat} (h : n ≤ 2 ^ 53) : (ofNat n).value = n := by
  rcases Nat.eq_zero_or_pos n with rfl | positive
  · have hzero : ofNat 0 = zero false := rfl
    rw [hzero]
    simp [value, zero]
  rcases h.lt_or_eq with hlt | rfl
  · have hbits : n.log2 < 53 := (Nat.log2_lt positive.ne').mpr hlt
    have hexponent : (n.log2 : Int) - 52 = -((52 - n.log2 : Nat) : Int) := by omega
    rw [ofNat_of_lt positive.ne' hlt, value, hexponent, zpow_neg, zpow_natCast]
    simp
  · have hcarried : ofNat (2 ^ 53) = ⟨false, 2 ^ 52, 1⟩ := by decide +kernel
    rw [hcarried]
    norm_num [value]

end PoolUplink.Binary64
