import PoolUplink.Binary64.Basic
import PoolUplink.Text.Numeral

/-!
# Shortest decimals

The decimal numeral with the fewest digits that reads back as a given number. Of several such
numerals it is the one nearest to the number, and of two equally near ones the one with an even
last digit.
-/

set_option autoImplicit false
set_option relaxedAutoImplicit false

namespace PoolUplink.Binary64.Shortest

/-- The numeral `digits * 10 ^ exponent`. -/
structure Numeral where
  digits : Nat
  exponent : Int
  deriving DecidableEq, Repr

def tens (k : Int) : Nat := Nat.pow 10 k.toNat

/-- The numbers between which decimals read back as `± m * 2 ^ e`, in quarters of the last place:
the lower end, the number, and the upper end. Below a power of two the gap is half as wide. -/
structure Gap where
  lower : Nat
  centre : Nat
  upper : Nat
  /-- Whether the ends themselves read back as the number. -/
  closed : Bool

def gap (x : Binary64) : Gap :=
  let m := x.significand
  let half := m == Nat.pow 2 (precision - 1) && leastExponent < x.exponent
  ⟨4 * m - (if half then 1 else 2), 4 * m, 4 * m + 2, m % 2 == 0⟩

def floorLog10 (x : Binary64) : Int :=
  let m := x.significand
  let e := x.exponent
  let atLeast (p : Int) : Bool := tens p * up (-e) ≤ m * up e * tens (-p)
  let guess := ((m.log2 : Int) + e) * 30103 / 100000
  if atLeast (guess + 1) then guess + 1 else if atLeast guess then guess else guess - 1

/-- The multiple of `10 ^ k` inside the gap that is nearest to the number, if there is one. -/
def onGrid? (x : Binary64) (k : Int) : Option Nat :=
  let g := gap x
  let e := x.exponent - 2
  let unit := tens k * up (-e)
  let place := up e * tens (-k)
  let inside (d : Nat) : Bool :=
    if g.closed then g.lower * place ≤ d * unit && d * unit ≤ g.upper * place
    else g.lower * place < d * unit && d * unit < g.upper * place
  let below := g.centre * place / unit
  let above := below + 1
  let low := g.centre * place - below * unit
  let high := above * unit - g.centre * place
  match inside below, inside above with
  | true, true =>
    if low < high || (low == high && below % 2 == 0) then some below else some above
  | true, false => some below
  | false, true => some above
  | false, false => none

/-- The numeral without the zeros it ends in. At most `fuel` of them are removed. -/
def strip : Nat → Numeral → Numeral
  | 0, n => n
  | fuel + 1, n =>
    if n.digits % 10 = 0 && n.digits ≠ 0 then strip fuel ⟨n.digits / 10, n.exponent + 1⟩ else n

def mostDigits : Nat := 17

def numeral (x : Binary64) : Numeral :=
  if x.significand = 0 then ⟨0, 0⟩
  else
    let p := floorLog10 x
    let found := (List.range mostDigits).findSome? fun (n : Nat) =>
      (onGrid? x (p - n)).map fun d => (⟨d, p - n⟩ : Numeral)
    strip (mostDigits + 1) (found.getD ⟨0, 0⟩)

structure Layout where
  /-- The least exponent of the first digit that is written without an exponent. -/
  least : Int
  /-- The greatest such exponent. -/
  greatest : Int
  deriving DecidableEq, Repr

def zeros (n : Nat) : List Char := List.replicate n '0'

/-- The numeral with a point and no exponent. There is a digit on both sides of the point. -/
def positional (digits : List Char) (first last : Int) : List Char :=
  if 0 ≤ last then digits ++ zeros last.toNat ++ ['.', '0']
  else if 0 ≤ first then
    digits.take (first.toNat + 1) ++ ['.'] ++ digits.drop (first.toNat + 1)
  else ['0', '.'] ++ zeros (-first - 1).toNat ++ digits

def scientific (digits : List Char) (first : Int) : List Char :=
  let mantissa := match digits with
    | d :: e :: rest => d :: '.' :: e :: rest
    | _ => digits
  let sign := if 0 ≤ first then '+' else '-'
  mantissa ++ 'e' :: sign :: Text.Numeral.decimal first.natAbs

def text (layout : Layout) (x : Binary64) : List Char :=
  let n := numeral x
  let digits := Text.Numeral.decimal n.digits
  let first := n.exponent + (digits.length : Int) - 1
  let size := if layout.least ≤ first && first ≤ layout.greatest
    then positional digits first n.exponent
    else scientific digits first
  if x.negative then '-' :: size else size

end PoolUplink.Binary64.Shortest
