/-!
# Bytes shown as text

Bytes received from a pool are logged as text. Well-formed UTF-8 is shown as it is; each longest
start of a character that does not go on as it must, and each byte that can start none, is shown
as one replacement character.
-/

set_option autoImplicit false
set_option relaxedAutoImplicit false

namespace PoolUplink.Text.Lossy

/-- How a character goes on after its first byte: the number of further bytes, the range of the
first of them, and the bits the first byte gives. -/
structure Lead where
  more : Nat
  low : UInt8
  high : UInt8
  bits : Nat

/-- The lead bytes of UTF-8 beyond ASCII. The narrowed ranges leave out overlong forms,
surrogates and numbers above the last code point. -/
def lead? (b : UInt8) : Option Lead :=
  let n := b.toNat
  if 0xC2 ≤ n && n ≤ 0xDF then some ⟨1, 0x80, 0xBF, n - 0xC0⟩
  else if n == 0xE0 then some ⟨2, 0xA0, 0xBF, 0⟩
  else if n == 0xED then some ⟨2, 0x80, 0x9F, 13⟩
  else if 0xE1 ≤ n && n ≤ 0xEF then some ⟨2, 0x80, 0xBF, n - 0xE0⟩
  else if n == 0xF0 then some ⟨3, 0x90, 0xBF, 0⟩
  else if 0xF1 ≤ n && n ≤ 0xF3 then some ⟨3, 0x80, 0xBF, n - 0xF0⟩
  else if n == 0xF4 then some ⟨3, 0x80, 0x8F, 4⟩
  else none

def replacement : Char := Char.ofNat 0xFFFD

/-- The text of the bytes, behind the text already read in reverse. `pending` is the character
begun: the bytes it still needs, the range of the next one, and its bits so far. -/
def scan (shown : List Char) : Option Lead → List UInt8 → List Char
  | none, [] => shown.reverse
  | some _, [] => (replacement :: shown).reverse
  | none, b :: rest =>
    if b < 0x80 then scan (Char.ofNat b.toNat :: shown) none rest
    else match lead? b with
      | some lead => scan shown (some lead) rest
      | none => scan (replacement :: shown) none rest
  | some lead, b :: rest =>
    if lead.low ≤ b && b ≤ lead.high then
      let bits := lead.bits * 64 + (b.toNat - 0x80)
      if lead.more ≤ 1 then scan (Char.ofNat bits :: shown) none rest
      else scan shown (some ⟨lead.more - 1, 0x80, 0xBF, bits⟩) rest
    else if b < 0x80 then scan (Char.ofNat b.toNat :: replacement :: shown) none rest
    else match lead? b with
      | some next => scan (replacement :: shown) (some next) rest
      | none => scan (replacement :: replacement :: shown) none rest

def chars (bytes : List UInt8) : List Char :=
  scan [] none bytes

def text (bytes : List UInt8) : String :=
  String.ofList (chars bytes)

end PoolUplink.Text.Lossy
