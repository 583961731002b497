import PoolUplink.Wire.Frame
import PoolUplink.Wire.Inbound.Lemmas

/-!
# Items of a pool's stream

A pool sends lines and binary frames in any order. The first byte of an item tells which it is.
The body of a frame is skipped, so that the next item starts where it should.
-/

set_option autoImplicit false
set_option relaxedAutoImplicit false

namespace PoolUplink.Wire

inductive Item where
  /-- A line with its line end. -/
  | line (bytes : List UInt8)
  /-- A frame, its body skipped. -/
  | frame (header : Frame.Header)
  deriving DecidableEq, Repr

namespace Item

def skipBody (header : Frame.Header) (s : Inbound) : Reading Item × Inbound :=
  if header.bodyLength = 0 then (.got (.frame header), s)
  else match s.discard header.bodyLength with
    | (.got _, t) => (.got (.frame header), t)
    | (.failed fault, t) => (.failed fault, t)
    | (.waiting, t) => (.waiting, t)

def readFrame (s : Inbound) : Reading Item × Inbound :=
  match s.exact Frame.headerSize with
  | (.got raw, t) =>
    match Frame.Header.decode raw with
    | .ok header => skipBody header t
    | .error fault => (.failed fault, t)
  | (.failed fault, t) => (.failed fault, t)
  | (.waiting, t) => (.waiting, t)

def readLine (s : Inbound) : Reading Item × Inbound :=
  match s.line with
  | (.got bytes, t) => (.got (.line bytes), t)
  | (.failed fault, t) => (.failed fault, t)
  | (.waiting, t) => (.waiting, t)

def read (s : Inbound) : Reading Item × Inbound :=
  match s.peek with
  | (.got b, t) => if b = Frame.mark then readFrame t else readLine t
  | (.failed fault, t) => (.failed fault, t)
  | (.waiting, t) => (.waiting, t)

private theorem skipBody_remaining_le (header : Frame.Header) (s : Inbound) :
    (skipBody header s).2.remaining.length ≤ s.remaining.length := by
  have h : (s.discard header.bodyLength).2.remaining.length ≤ s.remaining.length := by
    rw [Inbound.discard_remaining, List.length_drop]
    omega
  unfold skipBody
  split
  · exact Nat.le_refl _
  · split <;> rename_i heq <;> rw [heq] at h <;> exact h

private theorem readFrame_shorter {s : Inbound} {item : Item} (h : (readFrame s).1 = .got item) :
    (readFrame s).2.remaining.length < s.remaining.length := by
  unfold readFrame at *
  split at h
  · rename_i raw t heq
    have hgot : (s.exact Frame.headerSize).1 = .got raw → _ := Inbound.remaining_of_exact_got
    rw [heq] at hgot
    replace hgot := hgot rfl
    dsimp only at hgot
    have hlen : t.remaining.length < s.remaining.length := by
      rw [hgot.1, List.length_append, hgot.2, Frame.headerSize]
      omega
    split at h
    · rename_i header hd
      exact Nat.lt_of_le_of_lt (skipBody_remaining_le header t) hlen
    · cases h
  · cases h
  · cases h

private theorem readLine_shorter {s : Inbound} {item : Item} (h : (readLine s).1 = .got item) :
    (readLine s).2.remaining.length < s.remaining.length := by
  unfold readLine at *
  split at h
  · rename_i bytes t heq
    have hgot : s.line.1 = .got bytes → _ := Inbound.remaining_of_line_got
    rw [heq] at hgot
    replace hgot := hgot rfl
    dsimp only at hgot
    have hpos := List.length_pos_iff.2 hgot.2
    rw [hgot.1, List.length_append]
    dsimp only
    omega
  · cases h
  · cases h

theorem read_shorter {s : Inbound} {item : Item} (h : (read s).1 = .got item) :
    (read s).2.remaining.length < s.remaining.length := by
  unfold read at *
  have hp := Inbound.peek_remaining s
  split at h
  · rename_i b t heq
    rw [heq] at hp
    dsimp only at hp h ⊢
    rw [← hp]
    by_cases hb : b = Frame.mark
    · rw [if_pos hb] at h ⊢
      exact readFrame_shorter h
    · rw [if_neg hb] at h ⊢
      exact readLine_shorter h
  · cases h
  · cases h

/-- The items of a stream behind those already read, which come in reverse, and how reading came
to its end: with a fault, or, for `none`, waiting for more. -/
def readOn (seen : List Item) (s : Inbound) : List Item × Option Fault :=
  match _h : read s with
  | (.got item, t) => readOn (item :: seen) t
  | (.failed fault, _) => (seen.reverse, some fault)
  | (.waiting, _) => (seen.reverse, none)
termination_by s.remaining.length
decreasing_by
  have shorter : (read s).1 = .got item → _ := read_shorter
  rw [_h] at shorter
  exact shorter rfl

def readAll (s : Inbound) : List Item × Option Fault :=
  readOn [] s

end Item

end PoolUplink.Wire
