import PoolUplink.Peer.Groups

/-!
# Peers

The other end of a link is known by an address, of four octets or of eight groups, and a number.
-/

set_option autoImplicit false
set_option relaxedAutoImplicit false

namespace PoolUplink

inductive Peer where
  | octets (address : Peer.Octets) (portNumber : UInt16)
  /-- The scope tells apart addresses that only hold on one network of several. -/
  | groups (address : Peer.Groups) (scope : UInt32) (portNumber : UInt16)
  deriving DecidableEq, Repr

namespace Peer

open PoolUplink.Text

def portNumber? : List Char → Option UInt16
  | ':' :: ds => ((Numeral.digits? 10 ds).filter (· < UInt16.size)).map Nat.toUInt16
  | _ => none

/-- The scope behind an address, zero if there is none, and what is behind it. -/
def scope? : List Char → Option (UInt32 × List Char)
  | '%' :: cs =>
    let (ds, rest) := Numeral.leading 10 cs
    ((Numeral.digits? 10 ds).filter (· < UInt32.size)).map fun n => (n.toUInt32, rest)
  | cs => some (0, cs)

def ofOctets? (cs : List Char) : Option Peer := do
  let (address, cs) ← Octets.read? cs
  return octets address (← portNumber? cs)

def ofGroups? : List Char → Option Peer
  | '[' :: cs => do
    let (address, cs) ← Groups.read? cs
    let (scope, cs) ← scope? cs
    match cs with
    | ']' :: cs => return groups address scope (← portNumber? cs)
    | _ => none
  | _ => none

def ofText? (s : String) : Option Peer :=
  (ofOctets? s.toList).orElse fun _ => ofGroups? s.toList

/-- The characters of a peer. The scope is told if it is not zero. -/
def chars : Peer → List Char
  | octets address n => address.chars ++ ':' :: Numeral.decimal n.toNat
  | groups address scope n =>
    let behind := if scope = 0 then [] else '%' :: Numeral.decimal scope.toNat
    '[' :: address.chars ++ behind ++ ']' :: ':' :: Numeral.decimal n.toNat

def text (p : Peer) : String :=
  String.ofList p.chars

end Peer

end PoolUplink
