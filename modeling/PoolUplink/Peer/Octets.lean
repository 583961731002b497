import PoolUplink.Text.Numeral

/-!
# Addresses of four octets

Four decimal numbers with dots between them. Each number has one spelling: it is below 256 and
has no zeros in front.
-/

set_option autoImplicit false
set_option relaxedAutoImplicit false

namespace PoolUplink.Peer

structure Octets where
  first : UInt8
  second : UInt8
  third : UInt8
  fourth : UInt8
  deriving DecidableEq, Repr

namespace Octets

open PoolUplink.Text

/-- An octet that a text starts with, and what is behind it. -/
def octet? (cs : List Char) : Option (UInt8 × List Char) :=
  let (ds, rest) := Numeral.leading 10 cs
  ((Numeral.digits? 10 ds).filter fun n => n < 256 && Numeral.decimal n == ds).map fun n =>
    (n.toUInt8, rest)

def dotted? : List Char → Option (UInt8 × List Char)
  | '.' :: cs => octet? cs
  | _ => none

def read? (cs : List Char) : Option (Octets × List Char) := do
  let (a, cs) ← octet? cs
  let (b, cs) ← dotted? cs
  let (c, cs) ← dotted? cs
  let (d, cs) ← dotted? cs
  return (⟨a, b, c, d⟩, cs)

def chars (o : Octets) : List Char :=
  ['.'].intercalate ([o.first, o.second, o.third, o.fourth].map fun b => Numeral.decimal b.toNat)

/-- The address as two groups of sixteen bits, the high octet of each first. -/
def toGroups (o : Octets) : List UInt16 :=
  [o.first.toUInt16 * 256 + o.second.toUInt16, o.third.toUInt16 * 256 + o.fourth.toUInt16]

def ofGroups (high low : UInt16) : Octets :=
  ⟨(high / 256).toUInt8, high.toUInt8, (low / 256).toUInt8, low.toUInt8⟩

end Octets

end PoolUplink.Peer
