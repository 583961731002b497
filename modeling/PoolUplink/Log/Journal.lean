import PoolUplink.Text.Numeral

/-!
# The journal's stream

A service manager states which stream is connected to its journal, as the device and the inode
with a colon between them.
-/

set_option autoImplicit false
set_option relaxedAutoImplicit false

namespace PoolUplink.Log.Journal

structure Stream where
  device : UInt64
  inode : UInt64
  deriving DecidableEq, Repr

def number? (cs : List Char) : Option UInt64 :=
  (Text.Numeral.unsigned? 10 UInt64.size cs).map Nat.toUInt64

/-- The stream that a text states: two numbers with one colon between them. -/
def stream? (s : String) : Option Stream :=
  match s.toList.dropWhile (· != ':') with
  | [] => none
  | _ :: inode =>
    match number? (s.toList.takeWhile (· != ':')), number? inode with
    | some d, some i => some ⟨d, i⟩
    | _, _ => none

def text (s : Stream) : String :=
  String.ofList (Text.Numeral.decimal s.device.toNat ++ ':' :: Text.Numeral.decimal s.inode.toNat)

end PoolUplink.Log.Journal
