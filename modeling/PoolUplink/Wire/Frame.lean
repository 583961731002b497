import PoolUplink.Fault

/-!
# Frames

A binary frame starts with a header of four bytes: the mark `0x7F`, a kind, and the length of the
whole frame with the low byte first. The body follows.
-/

set_option autoImplicit false
set_option relaxedAutoImplicit false

namespace PoolUplink.Wire

namespace Frame

/-- The byte that tells a frame from a line. -/
def mark : UInt8 := 0x7F

def headerSize : Nat := 4

/-- A header whose length covers at least itself. -/
structure Header where
  kind : UInt8
  length : UInt16
  covers : headerSize ≤ length.toNat
  deriving DecidableEq, Repr

/-- The length that two bytes state, the low one first. -/
def lengthOf (low high : UInt8) : UInt16 :=
  low.toUInt16 + 256 * high.toUInt16

/-- Reads a header. Its first byte is not looked at; bytes that are missing count as zero. -/
def Header.decode (raw : List UInt8) : Except Fault Header :=
  let length := lengthOf (raw.getD 2 0) (raw.getD 3 0)
  if h : headerSize ≤ length.toNat then .ok ⟨raw.getD 1 0, length, h⟩
  else .error (.brokenFrame length)

def Header.bodyLength (h : Header) : Nat :=
  h.length.toNat - headerSize

def Header.encode (h : Header) : List UInt8 :=
  [mark, h.kind, h.length.toUInt8, (h.length >>> 8).toUInt8]

end Frame

structure Frame where
  kind : UInt8
  body : List UInt8
  fits : body.length + Frame.headerSize < UInt16.size
  deriving DecidableEq, Repr

namespace Frame

def header (f : Frame) : Header where
  kind := f.kind
  length := (f.body.length + headerSize).toUInt16
  covers := by
    rw [UInt16.toNat_ofNat_of_lt' f.fits]
    exact Nat.le_add_left _ _

def bytes (f : Frame) : List UInt8 := f.header.encode ++ f.body

end Frame

end PoolUplink.Wire
