import PoolUplink.Proofs.Wire.Flat
import PoolUplink.Wire.Packet

/-!
# The units of a stream

What reading a stream yields, unit by unit: its items, and at last the fault or the silence that
ends it. A stream that starts with packets yields their items first, however it is chunked.
-/

set_option autoImplicit false
set_option relaxedAutoImplicit false

namespace PoolUplink.Wire

namespace Frame

theorem lengthOf_split (n : UInt16) : lengthOf n.toUInt8 (n >>> 8).toUInt8 = n := by
  apply UInt16.toNat_inj.mp
  have hn := n.toNat_lt
  simp [lengthOf, Nat.shiftRight_eq_div_pow]
  omega

theorem Header.decode_encode (h : Header) : Header.decode h.encode = .ok h := by
  have hl : lengthOf (h.encode.getD 2 0) (h.encode.getD 3 0) = h.length :=
    lengthOf_split h.length
  unfold Header.decode
  simp only [hl, dif_pos h.covers]
  rfl

theorem bodyLength_header (f : Frame) : f.header.bodyLength = f.body.length := by
  simp only [Header.bodyLength, header, UInt16.toNat_ofNat_of_lt' f.fits]
  omega

end Frame

namespace Cursor

theorem line_of_append {text rest : List UInt8} (single : Inbound.lineEnd ∉ text)
    (ending : Ending) :
    (Cursor.mk (text ++ Inbound.lineEnd :: rest) ending).line =
      (.got (text ++ [Inbound.lineEnd]), ⟨rest, ending⟩) := by
  have hm : Inbound.lineEnd ∈ text ++ Inbound.lineEnd :: rest := by simp
  have hi : (text ++ Inbound.lineEnd :: rest).idxOf Inbound.lineEnd = text.length := by
    rw [List.idxOf_append, if_neg single, List.idxOf_cons_self, Nat.zero_add]
  have hs : text ++ Inbound.lineEnd :: rest = (text ++ [Inbound.lineEnd]) ++ rest := by simp
  have hl : text.length + 1 = (text ++ [Inbound.lineEnd]).length := by simp
  simp only [line, if_pos hm, hi]
  rw [hl, hs, List.take_left, List.drop_left]

theorem exact_of_append (front rest : List UInt8) (ending : Ending) :
    (Cursor.mk (front ++ rest) ending).exact front.length = (.got front, ⟨rest, ending⟩) := by
  have hle : front.length ≤ (front ++ rest).length := by simp
  simp only [exact, if_pos hle, List.take_left, List.drop_left]

theorem discard_of_append (front rest : List UInt8) (ending : Ending) :
    (Cursor.mk (front ++ rest) ending).discard front.length = (.got (), ⟨rest, ending⟩) := by
  have hle : front.length ≤ (front ++ rest).length := by simp
  simp only [discard, if_pos hle, List.drop_left]

private theorem skipBody_of_append (f : Frame) (rest : List UInt8) (ending : Ending) :
    (Cursor.mk (f.body ++ rest) ending).skipBody f.header =
      (.got (.frame f.header), ⟨rest, ending⟩) := by
  unfold skipBody
  rw [f.bodyLength_header]
  split
  · rename_i hn
    rw [List.eq_nil_of_length_eq_zero hn]
    rfl
  · rw [discard_of_append]

private theorem frame_of_append (f : Frame) (rest : List UInt8) (ending : Ending) :
    (Cursor.mk (f.bytes ++ rest) ending).frame = (.got (.frame f.header), ⟨rest, ending⟩) := by
  have hr := exact_of_append f.header.encode (f.body ++ rest) ending
  rw [← List.append_assoc] at hr
  change (Cursor.mk (f.bytes ++ rest) ending).exact Frame.headerSize = _ at hr
  unfold frame
  simp only [hr, Frame.Header.decode_encode]
  exact skipBody_of_append f rest ending

theorem item_of_packet (p : Packet) (rest : List UInt8) (ending : Ending) :
    (Cursor.mk (p.bytes ++ rest) ending).item = (.got p.item, ⟨rest, ending⟩) := by
  cases p with
  | line text single unmarked =>
    have hs : (text ++ [Inbound.lineEnd]) ++ rest = text ++ Inbound.lineEnd :: rest := by simp
    have hl : (Cursor.mk (text ++ Inbound.lineEnd :: rest) ending).lineItem =
        (.got (.line (text ++ [Inbound.lineEnd])), ⟨rest, ending⟩) := by
      rw [lineItem, line_of_append single]
    simp only [Packet.bytes, Packet.item, hs]
    cases text with
    | nil => exact hl
    | cons b text =>
      have hb : b ≠ Frame.mark := fun h => unmarked (congrArg some h)
      simp only [item, peek, List.cons_append, if_neg hb]
      exact hl
  | frame f => exact frame_of_append f rest ending

end Cursor

namespace Item

private theorem readOn_eq (seen : List Item) (s : Inbound) :
    readOn seen s = (seen.reverse ++ (readOn [] s).1, (readOn [] s).2) := by
  -- the rest behind an item is shorter, whatever has been seen before it
  induction hn : s.remaining.length using Nat.strongRecOn generalizing seen s with
  | ind n ih =>
    unfold readOn
    split
    · rename_i item t heq
      have shorter : t.remaining.length < s.remaining.length := by
        have h : (read s).1 = .got item → _ := read_shorter
        rw [heq] at h
        exact h rfl
      have hm := hn ▸ shorter
      rw [ih _ hm (item :: seen) t rfl, ih _ hm [item] t rfl]
      simp
    · simp
    · simp

/-- What reading a stream yields: its items, and then the fault or the silence at its end. -/
def units (s : Inbound) : List (Reading Item) :=
  (readAll s).1.map .got ++ [(readAll s).2.elim .waiting .failed]

theorem units_eq (s : Inbound) :
    units s = match read s with
      | (.got item, t) => .got item :: units t
      | (.failed fault, _) => [.failed fault]
      | (.waiting, _) => [.waiting] := by
  unfold units readAll
  rw [readOn]
  split
  · rename_i item t heq
    rw [readOn_eq [item] t, heq]
    simp
  · rename_i fault t heq
    simp [heq]
  · rename_i t heq
    simp [heq]

theorem units_of_packets (ps : List Packet) {s : Inbound} {rest : List UInt8} {ending : Ending}
    (h : s.cursor = ⟨ps.flatMap Packet.bytes ++ rest, ending⟩) :
    ∃ t : Inbound, t.cursor = ⟨rest, ending⟩ ∧
      units s = ps.map (fun p => .got p.item) ++ units t := by
  induction ps generalizing s with
  | nil => exact ⟨s, h, rfl⟩
  | cons p ps ih =>
    have hread := read_flat s
    rw [h, List.flatMap_cons, List.append_assoc, Cursor.item_of_packet] at hread
    obtain ⟨h1, h2⟩ := Prod.mk.inj hread
    obtain ⟨t, ht, hu⟩ := ih h2
    refine ⟨t, ht, ?_⟩
    have hp : read s = (.got p.item, (read s).2) := Prod.ext h1 rfl
    rw [units_eq, hp]
    exact congrArg (.got p.item :: ·) hu

end Item

end PoolUplink.Wire
