/-!
# The bytes of JSON's grammar

Names for the bytes that JSON gives a meaning, and their classes.
-/

set_option autoImplicit false
set_option relaxedAutoImplicit false

namespace PoolUplink.Json.Ascii

def quote : UInt8 := 0x22
def plus : UInt8 := 0x2B
def comma : UInt8 := 0x2C
def minus : UInt8 := 0x2D
def point : UInt8 := 0x2E
def slash : UInt8 := 0x2F
def zero : UInt8 := 0x30
def colon : UInt8 := 0x3A
def openBracket : UInt8 := 0x5B
def backslash : UInt8 := 0x5C
def closeBracket : UInt8 := 0x5D
def letterU : UInt8 := 0x75
def openBrace : UInt8 := 0x7B
def closeBrace : UInt8 := 0x7D

/-- The blanks between tokens: tab, line feed, carriage return and space. -/
def isSpace (b : UInt8) : Bool :=
  b == 0x20 || b == 0x0A || b == 0x0D || b == 0x09

def digit? (b : UInt8) : Option Nat :=
  if 0x30 ≤ b && b ≤ 0x39 then some (b.toNat - 0x30) else none

def nibble? (b : UInt8) : Option Nat :=
  if 0x30 ≤ b && b ≤ 0x39 then some (b.toNat - 0x30)
  else if 0x41 ≤ b && b ≤ 0x46 then some (b.toNat - 0x37)
  else if 0x61 ≤ b && b ≤ 0x66 then some (b.toNat - 0x57)
  else none

def nibble (n : Nat) : UInt8 :=
  if n < 10 then 0x30 + n.toUInt8 else 0x57 + n.toUInt8

/-- The character that follows a backslash for a byte with a short escape. -/
def shortOf? (b : UInt8) : Option UInt8 :=
  if b = quote || b = backslash then some b
  else if b = 0x08 then some 0x62
  else if b = 0x09 then some 0x74
  else if b = 0x0A then some 0x6E
  else if b = 0x0C then some 0x66
  else if b = 0x0D then some 0x72
  else none

/-- The byte that a short escape stands for. The slash may be escaped and never needs to be. -/
def ofShort? (b : UInt8) : Option UInt8 :=
  if b = quote || b = backslash || b = slash then some b
  else if b = 0x62 then some 0x08
  else if b = 0x74 then some 0x09
  else if b = 0x6E then some 0x0A
  else if b = 0x66 then some 0x0C
  else if b = 0x72 then some 0x0D
  else none

def bytes (s : String) : List UInt8 :=
  s.toUTF8.data.toList

def skipSpace (input : List UInt8) : List UInt8 :=
  input.dropWhile isSpace

theorem skipSpace_length_le (input : List UInt8) : (skipSpace input).length ≤ input.length :=
  (List.dropWhile_suffix isSpace).length_le

theorem length_lt_of_skipSpace {input rest : List UInt8} {b : UInt8}
    (h : skipSpace input = b :: rest) : rest.length < input.length := by
  have := skipSpace_length_le input
  rw [h, List.length_cons] at this
  omega

end PoolUplink.Json.Ascii
