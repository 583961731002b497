/-!
# Double precision numbers

The finite numbers of the binary64 format, with the operations that reading a decimal numeral
needs. Each operation is one exact ratio of natural numbers, rounded once: to the nearest
number of the format, and between two equally near ones to the one with an even significand.
-/

set_option autoImplicit false
set_option relaxedAutoImplicit false

namespace PoolUplink

/-- The number `± significand * 2 ^ exponent`. Zero has the exponent zero and keeps its sign. -/
structure Binary64 where
  negative : Bool
  significand : Nat
  exponent : Int
  deriving DecidableEq, Repr

namespace Binary64

def precision : Nat := 53

def leastExponent : Int := -1074

def greatestExponent : Int := 971

/-- The whole number nearest to `num / den`, the even one of two. -/
def roundRatio (num den : Nat) : Nat :=
  let q := num / den
  let r := num % den
  if den < 2 * r || (2 * r == den && q % 2 == 1) then q + 1 else q

/-- The power of two that `e` asks for, or one if `e` is negative. -/
def up (e : Int) : Nat := Nat.pow 2 e.toNat

/-- The greatest `e` with `2 ^ e ≤ num / den`, for positive `num` and `den`. -/
def floorLog2 (num den : Nat) : Int :=
  let e : Int := (num.log2 : Int) - den.log2
  if den * up e ≤ num * up (-e) then e else e - 1

/-- The number nearest to `± num / den`, unless that lies beyond the format. -/
def ofRatio? (negative : Bool) (num den : Nat) : Option Binary64 :=
  if num = 0 then some ⟨negative, 0, 0⟩
  else
    let e := max leastExponent (floorLog2 num den - (precision - 1 : Nat))
    let m := roundRatio (num * up (-e)) (den * up e)
    let carried : Nat × Int :=
      if m = Nat.pow 2 precision then (Nat.pow 2 (precision - 1), e + 1) else (m, e)
    if carried.1 = 0 then some ⟨negative, 0, 0⟩
    else if greatestExponent < carried.2 then none
    else some ⟨negative, carried.1, carried.2⟩

def zero (negative : Bool) : Binary64 := ⟨negative, 0, 0⟩

def neg (x : Binary64) : Binary64 := { x with negative := !x.negative }

def mul? (x y : Binary64) : Option Binary64 :=
  let e := x.exponent + y.exponent
  ofRatio? (x.negative != y.negative) (x.significand * y.significand * up e) (up (-e))

def div? (x y : Binary64) : Option Binary64 :=
  let e := x.exponent - y.exponent
  ofRatio? (x.negative != y.negative) (x.significand * up e) (y.significand * up (-e))

def ofNat (n : Nat) : Binary64 :=
  (ofRatio? false n 1).getD (zero false)

def ofInt : Int → Binary64
  | .ofNat n => ofNat n
  | .negSucc n => (ofNat (n + 1)).neg

/-- The whole number next to `x` on the way to zero. -/
def truncate (x : Binary64) : Int :=
  let size := x.significand * up x.exponent / up (-x.exponent)
  if x.negative then -(size : Int) else size

def powerOfTen (k : Nat) : Binary64 := ofNat (Nat.pow 10 k)

def greatestPower : Nat := 308

/-- The value of `x * 10 ^ e`, rounded at each step: one product or one quotient by a power of ten
in the format. A numeral further down takes several quotients, one further up lies beyond it. -/
def scale? (x : Binary64) (e : Int) : Option Binary64 :=
  if e.natAbs ≤ greatestPower then
    if 0 ≤ e then x.mul? (powerOfTen e.toNat) else x.div? (powerOfTen (-e).toNat)
  else if x.significand = 0 then some x
  else if 0 ≤ e then none
  else match x.div? (powerOfTen greatestPower) with
    | some y => scale? y (e + greatestPower)
    | none => none
termination_by (-e).toNat
decreasing_by
  simp only [greatestPower] at *
  omega

end Binary64

end PoolUplink
