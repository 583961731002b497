/-!
# Numerals

Unsigned whole numbers as people and pools write them: an optional plus sign, then one or more
digits of a base up to sixteen, of a value below some bound. Leading zeros are allowed.
-/

set_option autoImplicit false
set_option relaxedAutoImplicit false

namespace PoolUplink.Text.Numeral

def nibble? (c : Char) : Option Nat :=
  let n := c.toNat
  if 48 ≤ n && n ≤ 57 then some (n - 48)
  else if 65 ≤ n && n ≤ 70 then some (n - 55)
  else if 97 ≤ n && n ≤ 102 then some (n - 87)
  else none

def digit? (base : Nat) (c : Char) : Option Nat :=
  (nibble? c).filter (· < base)

/-- The value of `acc` followed by the digits, if all characters are digits of the base. -/
def extend? (base acc : Nat) : List Char → Option Nat
  | [] => some acc
  | c :: cs => (digit? base c).bind fun d => extend? base (acc * base + d) cs

def digits? (base : Nat) : List Char → Option Nat
  | [] => none
  | c :: cs => extend? base 0 (c :: cs)

/-- The digits of the base that a text starts with, and what is behind them. -/
def leading (base : Nat) (cs : List Char) : List Char × List Char :=
  cs.span fun c => (digit? base c).isSome

def unsigned? (base bound : Nat) (cs : List Char) : Option Nat :=
  let body := match cs with
    | '+' :: rest => rest
    | _ => cs
  (digits? base body).filter (· < bound)

def decimal (n : Nat) : List Char :=
  Nat.toDigits 10 n

def signed : Int → List Char
  | .ofNat n => decimal n
  | .negSucc n => '-' :: decimal (n + 1)

def text (n : Nat) : String :=
  String.ofList (decimal n)

/-- The lower-case hexadecimal digits of a number, filled up with zeros to the width. -/
def hex (width n : Nat) : List Char :=
  let ds := Nat.toDigits 16 n
  List.replicate (width - ds.length) '0' ++ ds

end PoolUplink.Text.Numeral
