import PoolUplink.Binary64.Shortest
import PoolUplink.Json.Literal
import PoolUplink.Json.Value
import PoolUplink.Text.Lossy

/-!
# Writing JSON

The compact form of a value: no blanks, members in the order they have.
-/

set_option autoImplicit false
set_option relaxedAutoImplicit false

namespace PoolUplink.Json

open PoolUplink.Json.Ascii

/-- Doubles are written without an exponent from `0.00001` up to sixteen digits before the point. -/
def doubles : Binary64.Shortest.Layout := ⟨-5, 15⟩

namespace Number

def chars : Number → List Char
  | whole n _ => Text.Numeral.signed n
  | double x => Binary64.Shortest.text doubles x

def write (n : Number) : List UInt8 :=
  n.chars.map fun c => c.toNat.toUInt8

end Number

namespace Value

mutual

def write : Value → List UInt8
  | null => bytes "null"
  | bool b => bytes (if b then "true" else "false")
  | number n => n.write
  | string s => Literal.write s
  | array items => openBracket :: writeItems items ++ [closeBracket]
  | object members => openBrace :: writeMembers members ++ [closeBrace]

def writeItems : List Value → List UInt8
  | [] => []
  | [v] => v.write
  | v :: w :: rest => v.write ++ comma :: writeItems (w :: rest)

def writeMembers : List (String × Value) → List UInt8
  | [] => []
  | [(name, v)] => Literal.write name ++ colon :: v.write
  | (name, v) :: m :: rest =>
    Literal.write name ++ colon :: v.write ++ comma :: writeMembers (m :: rest)

end

/-- The text of a value. What is written is well-formed, so it is shown as it is. -/
def text (v : Value) : String :=
  Text.Lossy.text v.write

end Value

end PoolUplink.Json
