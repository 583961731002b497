import PoolUplink.Proofs.Wire.Units

/-!
# Streams as packets and a remainder

Every stream is packets, one behind the other, and a remainder that starts with no packet.
Reading yields the items of the packets. How it comes to its end then, the remainder decides
together with the ending.
-/

set_option autoImplicit false
set_option relaxedAutoImplicit false

namespace PoolUplink.Wire

/-- Bytes that carry an item: a line itself; for a frame the mark, the kind, the length of all of
it with the low byte first, and as many bytes behind them as that length leaves. -/
def Item.CarriedBy : Item → List UInt8 → Prop
  | .line text, bytes => bytes = text
  | .frame header, bytes => ∃ (low high : UInt8) (body : List UInt8),
      bytes = 0x7F :: header.kind :: low :: high :: body ∧
        low.toNat + 256 * high.toNat = header.length.toNat ∧
        bytes.length = header.length.toNat ∧ body.length = header.bodyLength

/-- What is left of a stream behind its last packet. -/
inductive Remainder where
  | openLine (text : List UInt8) (single : Inbound.lineEnd ∉ text)
      (unmarked : text.head? ≠ some Frame.mark)
  /-- A mark with too few bytes behind it for a header. -/
  | cutHeader (tail : List UInt8) (short : tail.length + 1 < Frame.headerSize)
  /-- A header whose length does not cover it, and whatever there is behind it. -/
  | broken (kind low high : UInt8) (tail : List UInt8)
      (short : low.toNat + 256 * high.toNat < Frame.headerSize)
  | cutBody (header : Frame.Header) (front : List UInt8)
      (short : front.length < header.bodyLength)

namespace Remainder

def bytes : Remainder → List UInt8
  | openLine text _ _ => text
  | cutHeader tail _ => Frame.mark :: tail
  | broken kind low high tail _ => Frame.mark :: kind :: low :: high :: tail
  | cutBody header front _ => header.encode ++ front

/-- How reading a remainder turns out. A broken header is a fault of its own, whatever follows;
all else is a matter of the ending. -/
def reading (ending : Ending) : Remainder → Reading Item
  | broken _ low high _ _ => .failed (.brokenFrame (Frame.lengthOf low high))
  | cutHeader _ _ => ending.reading (.stream "early eof")
  | openLine _ _ _ => ending.reading .disconnected
  | cutBody _ _ _ => ending.reading .disconnected

end Remainder

namespace Frame

private theorem lengthOf_toNat (low high : UInt8) :
    (lengthOf low high).toNat = low.toNat + 256 * high.toNat := by
  have hl := low.toNat_lt
  have hh := high.toNat_lt
  simp only [lengthOf, UInt16.toNat_add, UInt16.toNat_mul, UInt8.toNat_toUInt16,
    UInt16.toNat_ofNat]
  omega

private theorem low_lengthOf (low high : UInt8) : (lengthOf low high).toUInt8 = low := by
  apply UInt8.toNat_inj.mp
  have hl := low.toNat_lt
  rw [UInt16.toNat_toUInt8, lengthOf_toNat]
  omega

private theorem high_lengthOf (low high : UInt8) : (lengthOf low high >>> 8).toUInt8 = high := by
  apply UInt8.toNat_inj.mp
  have hl := low.toNat_lt
  have hh := high.toNat_lt
  rw [UInt16.toNat_toUInt8, UInt16.toNat_shiftRight, lengthOf_toNat,
    Nat.shiftRight_eq_div_pow]
  simp
  omega

private theorem length_encode (h : Header) : h.encode.length = headerSize := rfl

private theorem length_header (f : Frame) : f.header.length.toNat = f.body.length + headerSize :=
  UInt16.toNat_ofNat_of_lt' f.fits

end Frame

theorem Packet.carries (p : Packet) : p.item.CarriedBy p.bytes := by
  cases p with
  | line text single unmarked => rfl
  | frame f =>
    refine ⟨_, _, f.body, rfl, ?_, ?_, f.bodyLength_header.symm⟩
    · rw [← Frame.lengthOf_toNat, Frame.lengthOf_split]
    · rw [Frame.length_header]
      simp [bytes, Frame.bytes, Frame.length_encode, Nat.add_comm]

theorem Packet.length_pos (p : Packet) : 0 < p.bytes.length := by
  cases p with
  | line text single unmarked => simp [bytes]
  | frame f =>
    rw [bytes, Frame.bytes, List.length_append, Frame.length_encode]
    exact Nat.add_pos_left (by decide) _

namespace Cursor

private theorem item_of_openLine {text : List UInt8} (single : Inbound.lineEnd ∉ text)
    (unmarked : text.head? ≠ some Frame.mark) (ending : Ending) :
    (Cursor.mk text ending).item.1 = ending.reading .disconnected := by
  cases text with
  | nil =>
    simp only [item, peek]
    cases ending <;> rfl
  | cons b text =>
    have hb : b ≠ Frame.mark := fun h => unmarked (congrArg some h)
    simp only [item, peek, if_neg hb, lineItem, line, if_neg single]
    cases ending <;> rfl

private theorem frame_of_cutHeader {tail : List UInt8} (short : tail.length + 1 < Frame.headerSize)
    (ending : Ending) :
    (Cursor.mk (Frame.mark :: tail) ending).frame.1 = ending.reading (.stream "early eof") := by
  have hn : ¬ Frame.headerSize ≤ (Frame.mark :: tail).length := Nat.not_le.mpr short
  simp only [frame, exact, if_neg hn]
  cases ending <;> rfl

private theorem frame_of_broken {kind low high : UInt8} {tail : List UInt8}
    (short : low.toNat + 256 * high.toNat < Frame.headerSize) (ending : Ending) :
    (Cursor.mk (Frame.mark :: kind :: low :: high :: tail) ending).frame.1 =
      .failed (.brokenFrame (Frame.lengthOf low high)) := by
  have hraw : (Cursor.mk (Frame.mark :: kind :: low :: high :: tail) ending).exact
      Frame.headerSize = (.got [Frame.mark, kind, low, high], ⟨tail, ending⟩) :=
    exact_of_append [Frame.mark, kind, low, high] tail ending
  have hn : ¬ Frame.headerSize ≤ (Frame.lengthOf low high).toNat := by
    rw [Frame.lengthOf_toNat]
    exact Nat.not_le.mpr short
  have hd : Frame.Header.decode [Frame.mark, kind, low, high] =
      .error (.brokenFrame (Frame.lengthOf low high)) := dif_neg hn
  simp only [frame, hraw, hd]

private theorem frame_of_cutBody {header : Frame.Header} {front : List UInt8}
    (short : front.length < header.bodyLength) (ending : Ending) :
    (Cursor.mk (header.encode ++ front) ending).frame.1 = ending.reading .disconnected := by
  have hraw : (Cursor.mk (header.encode ++ front) ending).exact Frame.headerSize =
      (.got header.encode, ⟨front, ending⟩) := exact_of_append header.encode front ending
  have hz : header.bodyLength ≠ 0 := by omega
  have hn : ¬ header.bodyLength ≤ front.length := Nat.not_le.mpr short
  simp only [frame, hraw, Frame.Header.decode_encode, skipBody, if_neg hz, discard, if_neg hn]
  cases ending <;> rfl

theorem item_of_remainder (r : Remainder) (ending : Ending) :
    (Cursor.mk r.bytes ending).item.1 = r.reading ending := by
  cases r with
  | openLine text single unmarked => exact item_of_openLine single unmarked ending
  | cutHeader tail short => exact frame_of_cutHeader short ending
  | broken kind low high tail short => exact frame_of_broken short ending
  | cutBody header front short => exact frame_of_cutBody short ending

end Cursor

theorem Remainder.reading_ne_got (r : Remainder) (ending : Ending) (item : Item) :
    r.reading ending ≠ .got item := by
  cases r <;> cases ending <;> simp [reading, Ending.reading]

private theorem marked_cases (kind low high : UInt8) (behind : List UInt8) :
    (∃ (f : Frame) (rest : List UInt8),
      Frame.mark :: kind :: low :: high :: behind = f.bytes ++ rest) ∨
    ∃ r : Remainder, Frame.mark :: kind :: low :: high :: behind = r.bytes := by
  by_cases short : low.toNat + 256 * high.toNat < Frame.headerSize
  · exact Or.inr ⟨.broken kind low high behind short, rfl⟩
  have covers : Frame.headerSize ≤ (Frame.lengthOf low high).toNat := by
    rw [Frame.lengthOf_toNat]
    exact Nat.not_lt.mp short
  let header : Frame.Header := ⟨kind, Frame.lengthOf low high, covers⟩
  have hencode : header.encode = [Frame.mark, kind, low, high] := by
    simp only [header, Frame.Header.encode, Frame.low_lengthOf, Frame.high_lengthOf]
  by_cases cut : behind.length < header.bodyLength
  · refine Or.inr ⟨.cutBody header behind cut, ?_⟩
    rw [Remainder.bytes, hencode]
    rfl
  -- the body is there: the frame is the header with as many bytes as it declares
  · have hbody : (behind.take header.bodyLength).length + Frame.headerSize =
        header.length.toNat := by
      rw [List.length_take_of_le (Nat.not_lt.mp cut), Frame.Header.bodyLength,
        Nat.sub_add_cancel covers]
    have fits : (behind.take header.bodyLength).length + Frame.headerSize < UInt16.size := by
      rw [hbody]
      exact header.length.toNat_lt
    let f : Frame := ⟨kind, behind.take header.bodyLength, fits⟩
    have hlength : f.header.length = header.length := by
      apply UInt16.toNat_inj.mp
      rw [Frame.length_header]
      exact hbody
    have hf : f.header.encode = [Frame.mark, kind, low, high] := by
      rw [← hencode]
      simp only [Frame.Header.encode, hlength]
      rfl
    refine Or.inl ⟨f, behind.drop header.bodyLength, ?_⟩
    rw [Frame.bytes, hf, List.append_assoc]
    exact congrArg ([Frame.mark, kind, low, high] ++ ·) (List.take_append_drop _ _).symm

theorem exists_packet_or_remainder (bytes : List UInt8) :
    (∃ (p : Packet) (rest : List UInt8), bytes = p.bytes ++ rest) ∨
      ∃ r : Remainder, bytes = r.bytes := by
  by_cases marked : bytes.head? = some Frame.mark
  · obtain ⟨tail, rfl⟩ := List.head?_eq_some_iff.mp marked
    rcases tail with _ | ⟨kind, _ | ⟨low, _ | ⟨high, behind⟩⟩⟩
    · exact Or.inr ⟨.cutHeader [] (by decide), rfl⟩
    · exact Or.inr ⟨.cutHeader [kind] (by simp [Frame.headerSize]), rfl⟩
    · exact Or.inr ⟨.cutHeader [kind, low] (by simp [Frame.headerSize]), rfl⟩
    · refine (marked_cases kind low high behind).imp_left ?_
      rintro ⟨f, rest, h⟩
      exact ⟨.frame f, rest, h⟩
  · by_cases ended : Inbound.lineEnd ∈ bytes
    · obtain ⟨text, rest, rfl, single⟩ := List.eq_append_cons_of_mem ended
      have unmarked : text.head? ≠ some Frame.mark := by
        intro h
        obtain ⟨tail, rfl⟩ := List.head?_eq_some_iff.mp h
        exact marked rfl
      refine Or.inl ⟨.line text single unmarked, rest, ?_⟩
      rw [Packet.bytes, List.append_assoc]
      rfl
    · exact Or.inr ⟨.openLine bytes ended marked, rfl⟩

theorem exists_packets_remainder (bytes : List UInt8) :
    ∃ (ps : List Packet) (r : Remainder), bytes = ps.flatMap Packet.bytes ++ r.bytes := by
  -- behind a packet there is less
  induction hn : bytes.length using Nat.strongRecOn generalizing bytes with
  | ind n ih =>
    rcases exists_packet_or_remainder bytes with ⟨p, rest, rfl⟩ | ⟨r, rfl⟩
    · have hlt : rest.length < n := by
        have hp := p.length_pos
        rw [List.length_append] at hn
        omega
      obtain ⟨ps, r, rfl⟩ := ih rest.length hlt rest rfl
      exact ⟨p :: ps, r, by simp⟩
    · exact ⟨[], r, rfl⟩

namespace Item

theorem units_of_packets_remainder (ps : List Packet) (r : Remainder) {s : Inbound}
    {ending : Ending} (h : s.cursor = ⟨ps.flatMap Packet.bytes ++ r.bytes, ending⟩) :
    units s = ps.map (fun p => .got p.item) ++ [r.reading ending] := by
  obtain ⟨t, ht, hunits⟩ := units_of_packets ps h
  have hread := congrArg Prod.fst (read_flat t)
  rw [ht, Cursor.item_of_remainder] at hread
  rw [hunits, units_eq]
  have hnot := r.reading_ne_got ending
  generalize read t = p at hread
  obtain ⟨reading, u⟩ := p
  change reading = r.reading ending at hread
  subst hread
  congr 1
  cases hr : r.reading ending with
  | got item => exact absurd hr (hnot item)
  | failed fault => rfl
  | waiting => rfl

/-- Packets are read back, whatever the chunks: lines as they are, frames with their kind, their
length and the length of their body. What comes behind the last of them is the end. -/
theorem units_of_closed_packets (ps : List Packet) {chunks : List (List UInt8)}
    (cut : chunks.flatten = ps.flatMap Packet.bytes) :
    units (.ofChunks chunks .closed) =
        ps.map (fun p => .got p.item) ++ [.failed .disconnected] ∧
      (∀ p ∈ ps, p.item.CarriedBy p.bytes) ∧
      ∀ f, .frame f ∈ ps → f.header.kind = f.kind ∧
        f.header.length.toNat = f.body.length + 4 ∧ f.header.bodyLength = f.body.length := by
  refine ⟨?_, fun p _ => p.carries, fun f _ => ⟨rfl, f.length_header, f.bodyLength_header⟩⟩
  have hcursor : (Inbound.ofChunks chunks .closed).cursor =
      ⟨ps.flatMap Packet.bytes ++ Remainder.bytes (.openLine [] (by simp) (by simp)), .closed⟩ := by
    rw [← cut]
    exact Inbound.cursor_eq (List.append_nil _).symm rfl
  exact units_of_packets_remainder ps _ hcursor

/-- Frames, one with bytes in its body that also start and end items, one without a body, and a
line between them. -/
def sampleStream : List Packet :=
  [.frame ⟨9, [0x0A, 0x7F, 0x41], by decide⟩, .line [0x7B, 0x7D] (by decide) (by decide),
    .frame ⟨5, [], by decide⟩]

theorem units_of_closed_packets_of_sampleStream :
    [[0x7F], [9, 7], [], [0, 0x0A, 0x7F], [0x41, 0x7B, 0x7D, 0x0A, 0x7F, 5, 4], [0]].flatten =
        sampleStream.flatMap Packet.bytes ∧
      units (.ofChunks
          [[0x7F], [9, 7], [], [0, 0x0A, 0x7F], [0x41, 0x7B, 0x7D, 0x0A, 0x7F, 5, 4], [0]]
          .closed) =
        [.got (.frame ⟨9, 7, by decide⟩), .got (.line [0x7B, 0x7D, 0x0A]),
          .got (.frame ⟨5, 4, by decide⟩), .failed .disconnected] := by
  have cut : [[0x7F], [9, 7], [], [0, 0x0A, 0x7F], [0x41, 0x7B, 0x7D, 0x0A, 0x7F, 5, 4],
      [0]].flatten = sampleStream.flatMap Packet.bytes := by decide
  exact ⟨cut, (units_of_closed_packets sampleStream cut).1⟩

end Item

end PoolUplink.Wire
