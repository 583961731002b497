import PoolUplink.Text.Blank
import PoolUplink.Text.Numeral

/-!
# Pool addresses

A pool is configured as a host and a number, with a colon between them and possibly a scheme in
front. The last colon counts, so that a host may hold colons itself.
-/

set_option autoImplicit false
set_option relaxedAutoImplicit false

namespace PoolUplink

structure Endpoint where
  host : String
  portNumber : UInt16
  deriving DecidableEq, Repr

namespace Endpoint

open PoolUplink.Text

/-- The schemes that may stand in front, the longer one first. -/
def schemes : List (List Char) := ["stratum+tcp://".toList, "tcp://".toList]

/-- The text without one scheme in front. -/
def dropScheme (cs : List Char) : List Char :=
  match schemes.find? (·.isPrefixOf cs) with
  | some scheme => cs.drop scheme.length
  | none => cs

def splitLast? (cs : List Char) : Option (List Char × List Char) :=
  match cs.reverse.dropWhile (· != ':') with
  | [] => none
  | _ :: front => some (front.reverse, (cs.reverse.takeWhile (· != ':')).reverse)

/-- The address that a text without blanks around it and without a scheme states. -/
def ofBare? (cs : List Char) : Option Endpoint :=
  match splitLast? cs with
  | none => none
  | some (host, number) =>
    if host.isEmpty then none
    else (Numeral.unsigned? 10 UInt16.size number).map fun n => ⟨String.ofList host, n.toUInt16⟩

def ofText? (s : String) : Option Endpoint :=
  ofBare? (dropScheme (Blank.trim s.toList))

def chars (e : Endpoint) : List Char :=
  e.host.toList ++ ':' :: Numeral.decimal e.portNumber.toNat

def text (e : Endpoint) : String :=
  String.ofList e.chars

end Endpoint

end PoolUplink
