import PoolUplink.Text.Hidden
import PoolUplink.Text.Numeral

/-!
# Quoted texts

Diagnostics quote the texts they mention, so that a reader sees where each begins and ends and
which characters it holds.
-/

set_option autoImplicit false
set_option relaxedAutoImplicit false

namespace PoolUplink.Text.Quoted

open PoolUplink.Text

/-- A character inside quotes: a short escape, itself, or its number in braces. -/
def escape (c : Char) : List Char :=
  if c = '"' || c = '\\' then ['\\', c]
  else if c = '\n' then ['\\', 'n']
  else if c = '\r' then ['\\', 'r']
  else if c = '\t' then ['\\', 't']
  else if c.toNat = 0 then ['\\', '0']
  else if 0x20 ≤ c.toNat && c.toNat < 0x7F then [c]
  else if Hidden.isHidden c then
    ['\\', 'u', '\x7b'] ++ Nat.toDigits 16 c.toNat ++ ['\x7d']
  else [c]

def chars (cs : List Char) : List Char :=
  '"' :: cs.flatMap escape ++ ['"']

def text (s : String) : String :=
  String.ofList (chars s.toList)

end PoolUplink.Text.Quoted
