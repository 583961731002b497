import PoolUplink.Proofs.Uplink.Settlement

/-!
# Deliveries

What a pool has of the lines written to it one behind the other: of all their bytes, as many from
the front as it accepts. A write that fails changes nothing in that, nor do later ones or closing
the stream: what is held back then is offered again, and refused again.
-/

set_option autoImplicit false
set_option relaxedAutoImplicit false

namespace PoolUplink.Wire.Outbound

/-- A pool accepts bytes to the last. -/
def Fits (room : Option Nat) (bytes : List UInt8) : Prop := ∀ n ∈ room, bytes.length ≤ n

def accepted (room : Option Nat) (bytes : List UInt8) : List UInt8 :=
  match room with
  | none => bytes
  | some n => bytes.take n

section Fits

variable {room : Option Nat} {front : List UInt8}

theorem accepted_of_fits (fits : Fits room front) : accepted room front = front := by
  cases room with
  | none => rfl
  | some n => exact List.take_of_length_le (fits n rfl)

private theorem accepted_append (fits : Fits room front) (rest : List UInt8) :
    accepted room (front ++ rest) = front ++ accepted (room.map (· - front.length)) rest := by
  cases room with
  | none => rfl
  | some n =>
    have hfront := List.take_of_length_le (fits n rfl)
    simp only [accepted, Option.map_some, List.take_append, hfront]

private theorem not_fits_iff : ¬ Fits room front ↔ ∃ n, room = some n ∧ n < front.length := by
  unfold Fits
  constructor
  · intro h
    obtain ⟨n, h⟩ := Classical.not_forall.mp h
    obtain ⟨hn, hlt⟩ := Classical.not_imp.mp h
    exact ⟨n, hn, Nat.not_le.mp hlt⟩
  · rintro ⟨n, hn, hlt⟩ h
    exact absurd (h n hn) (Nat.not_le.mpr hlt)

private theorem fits_append_iff (fits : Fits room front) (rest : List UInt8) :
    Fits room (front ++ rest) ↔ Fits (room.map (· - front.length)) rest := by
  cases room with
  | none => simp [Fits]
  | some n =>
    have hfront : front.length ≤ n := fits n rfl
    simp only [Fits, Option.map_some, Option.mem_some_iff, forall_eq', List.length_append]
    omega

private theorem room_left_of_not_fits (cut : ¬ Fits room front) :
    room.map (· - front.length) = some 0 := by
  obtain ⟨n, rfl, hlt⟩ := not_fits_iff.mp cut
  rw [Option.map_some, Nat.sub_eq_zero_of_le (Nat.le_of_lt hlt)]

private theorem not_fits_append (cut : ¬ Fits room front) (rest : List UInt8) :
    ¬ Fits room (front ++ rest) := by
  obtain ⟨n, hn, hlt⟩ := not_fits_iff.mp cut
  refine not_fits_iff.mpr ⟨n, hn, ?_⟩
  rw [List.length_append]
  omega

private theorem accepted_append_of_not_fits (cut : ¬ Fits room front) (rest : List UInt8) :
    accepted room (front ++ rest) = accepted room front := by
  obtain ⟨n, rfl, hlt⟩ := not_fits_iff.mp cut
  exact List.take_append_of_le_length (Nat.le_of_lt hlt)

end Fits

private theorem offer_of_fits {s : Outbound} {bytes : List UInt8} (fits : Fits s.room bytes) :
    s.offer bytes = ({ s with
      room := s.room.map (· - bytes.length)
      received := s.received ++ bytes }, []) := by
  obtain ⟨room, received, held, shut⟩ := s
  cases room with
  | none => rfl
  | some n =>
    have hle : bytes.length ≤ n := fits n rfl
    simp only [offer, List.take_of_length_le hle, List.drop_of_length_le hle, Option.map_some]

private theorem flush_of_nothing_held {s : Outbound} (held : s.held = []) :
    s.flush = (.ok (), s) := by
  have fits : Fits s.room s.held := by
    intro n _
    rw [held]
    exact Nat.zero_le n
  rw [flush, offer_of_fits fits]
  obtain ⟨room, received, held', shut⟩ := s
  obtain rfl : held' = [] := held
  cases room <;> simp

section NothingHeld

variable {s t : Outbound} {line : List UInt8}

private theorem makeRoom_of_nothing_held (held : s.held = []) :
    (if s.held.length + line.length > capacity then s.flush else (.ok (), s)) = (.ok (), s) := by
  rw [flush_of_nothing_held held, ite_self]

private theorem writeLine_of_taken (held : s.held = []) (taken : s.take line = (.ok (), t)) :
    s.writeLine line = t.flush := by
  unfold writeLine
  simp only [makeRoom_of_nothing_held held, taken]

private theorem writeLine_of_refused {fault : Fault} (held : s.held = [])
    (refused : s.take line = (.error fault, t)) : s.writeLine line = (.error fault, t) := by
  unfold writeLine
  simp only [makeRoom_of_nothing_held held, refused]

end NothingHeld

private theorem writeLine_of_fits {s : Outbound} {line : List UInt8} (held : s.held = [])
    (fits : Fits s.room line) :
    s.writeLine line = (.ok (), { s with
      room := s.room.map (· - line.length)
      received := s.received ++ line }) := by
  by_cases brief : line.length < capacity
  · have taken : s.take line = (.ok (), { s with held := s.held ++ line }) := if_pos brief
    have hoffer : ({ s with held := s.held ++ line } : Outbound).offer (s.held ++ line) =
        ({ s with
          room := s.room.map (· - line.length)
          received := s.received ++ line
          held := s.held ++ line }, []) := by
      rw [held, List.nil_append]
      exact offer_of_fits (s := { s with held := line }) fits
    rw [writeLine_of_taken held taken, flush, hoffer]
    simp [held]
  · have taken : s.take line = (.ok (), { s with
        room := s.room.map (· - line.length)
        received := s.received ++ line }) := by
      rw [take, if_neg brief, offer_of_fits fits]
      simp [capacity]
    rw [writeLine_of_taken held taken]
    exact flush_of_nothing_held held

private theorem offer_of_no_room {s : Outbound} (room : s.room = some 0) (bytes : List UInt8) :
    s.offer bytes = (s, bytes) := by
  obtain ⟨room', received, held, shut⟩ := s
  obtain rfl : room' = some 0 := room
  simp [offer]

private theorem flush_of_no_room {s : Outbound} (room : s.room = some 0) (held : s.held ≠ []) :
    s.flush = (.error refused, s) := by
  simp [flush, offer_of_no_room room, held]

private theorem writeLine_of_short {s : Outbound} {line : List UInt8} {n : Nat} (held : s.held = [])
    (room : s.room = some n) (short : n < line.length) :
    ∃ t, s.writeLine line = (.error refused, t) ∧ t.room = some 0 ∧
      t.received = s.received ++ line.take n := by
  have hdrop : line.drop n ≠ [] := by
    rw [ne_eq, List.drop_eq_nil_iff]
    exact Nat.not_le.mpr short
  have hoffer (held' : List UInt8) : ({ s with held := held' } : Outbound).offer line =
      ({ s with
        room := some 0
        received := s.received ++ line.take n
        held := held' }, line.drop n) := by
    have hleft : n - line.length = 0 := Nat.sub_eq_zero_of_le (Nat.le_of_lt short)
    simp only [offer, room, hleft]
  by_cases brief : line.length < capacity
  · have taken : s.take line = (.ok (), { s with held := line }) := by
      rw [take, if_pos brief, held, List.nil_append]
    have hunsent : (line.drop n).isEmpty = false := by simpa using hdrop
    rw [writeLine_of_taken held taken, flush, hoffer line]
    dsimp only
    rw [hunsent]
    exact ⟨_, rfl, rfl, rfl⟩
  -- the line is sent as it is; what is left of it is held if it is short enough
  · by_cases rest : (line.drop n).length < capacity
    · have taken : s.take line = (.ok (), { s with
          room := some 0
          received := s.received ++ line.take n
          held := s.held ++ line.drop n }) := by
        rw [take, if_neg brief, hoffer s.held]
        exact if_pos rest
      have hheld : s.held ++ line.drop n ≠ [] := List.append_ne_nil_of_right_ne_nil _ hdrop
      rw [writeLine_of_taken held taken, flush_of_no_room rfl hheld]
      exact ⟨_, rfl, rfl, rfl⟩
    · have refused : s.take line = (.error refused, { s with
          room := some 0
          received := s.received ++ line.take n }) := by
        rw [take, if_neg brief, hoffer s.held]
        exact if_neg rest
      exact ⟨_, writeLine_of_refused held refused, rfl, rfl⟩

/-- How a stream stands that bytes have been written to, of which the pool accepts some. -/
structure Delivers (room : Option Nat) (sent : List UInt8) (s : Outbound) : Prop where
  received : s.received = accepted room sent
  left : s.room = room.map (· - sent.length)
  held : Fits room sent → s.held = []

theorem fresh_delivers (room : Option Nat) : Delivers room [] (fresh room) := by
  refine ⟨?_, ?_, fun _ => rfl⟩
  · have fits : Fits room [] := fun n _ => Nat.zero_le n
    exact (accepted_of_fits fits).symm
  · cases room <;> rfl

private theorem Delivers.no_room {room : Option Nat} {sent : List UInt8} {s : Outbound}
    (h : Delivers room sent s) (cut : ¬ Fits room sent) : s.room = some 0 :=
  h.left.trans (room_left_of_not_fits cut)

private theorem Delivers.settled {room : Option Nat} {sent : List UInt8} {s : Outbound}
    (h : Delivers room sent s) : s.held = [] ∨ s.room = some 0 := by
  by_cases fits : Fits room sent
  · exact Or.inl (h.held fits)
  · exact Or.inr (h.no_room fits)

private theorem Delivers.append_of_not_fits {room : Option Nat} {sent : List UInt8} {s : Outbound}
    (h : Delivers room sent s) (cut : ¬ Fits room sent) (rest : List UInt8) :
    Delivers room (sent ++ rest) s := by
  have hcut := not_fits_append cut rest
  refine ⟨?_, ?_, fun all => absurd all hcut⟩
  · rw [accepted_append_of_not_fits cut]
    exact h.received
  · exact (h.no_room cut).trans (room_left_of_not_fits hcut).symm

section NoRoom

variable {s : Outbound} {line : List UInt8}

private theorem take_of_no_room (room : s.room = some 0) (line : List UInt8) :
    s.take line = (.ok (), { s with held := s.held ++ line }) ∨
      s.take line = (.error refused, s) := by
  by_cases brief : line.length < capacity
  · exact Or.inl (if_pos brief)
  · refine Or.inr ?_
    rw [take, if_neg brief, offer_of_no_room room]
    exact if_neg brief

private theorem makeRoom_of_no_room (room : s.room = some 0) (line : List UInt8) :
    (if s.held.length + line.length > capacity then s.flush else (.ok (), s)) = (.ok (), s) ∨
      (if s.held.length + line.length > capacity then s.flush else (.ok (), s)) =
        (.error refused, s) := by
  by_cases held : s.held = []
  · exact Or.inl (makeRoom_of_nothing_held held)
  · rw [flush_of_no_room room held]
    split
    · exact Or.inr rfl
    · exact Or.inl rfl

private theorem writeLine_of_no_room (room : s.room = some 0) (written : line ≠ []) :
    ∃ held, s.writeLine line = (.error refused, { s with held }) := by
  unfold writeLine
  rcases makeRoom_of_no_room room line with hroom | hroom
  · rcases take_of_no_room room line with ht | ht
    · -- the line stays held, so that the flush behind it fails
      have hheld : s.held ++ line ≠ [] := List.append_ne_nil_of_right_ne_nil _ written
      simp only [hroom, ht]
      rw [flush_of_no_room (s := { s with held := s.held ++ line }) room hheld]
      exact ⟨_, rfl⟩
    · simp only [hroom, ht]
      exact ⟨s.held, rfl⟩
  · simp only [hroom]
    exact ⟨s.held, rfl⟩

end NoRoom

theorem writeLine_delivers {room : Option Nat} {sent line : List UInt8} {s : Outbound}
    (h : Delivers room sent s) (written : line ≠ []) :
    Delivers room (sent ++ line) (s.writeLine line).2 ∧
      (Fits room (sent ++ line) → (s.writeLine line).1 = .ok ()) ∧
      (¬ Fits room (sent ++ line) → (s.writeLine line).1 = .error refused) := by
  by_cases before : Fits room sent
  · have held := h.held before
    have hfits : Fits room (sent ++ line) ↔ Fits s.room line := by
      rw [fits_append_iff before, h.left]
    by_cases fits : Fits room (sent ++ line)
    · rw [writeLine_of_fits held (hfits.mp fits)]
      refine ⟨⟨?_, ?_, fun _ => held⟩, fun _ => rfl, fun cut => absurd fits cut⟩
      · rw [accepted_of_fits fits]
        dsimp only
        rw [h.received, accepted_of_fits before]
      · dsimp only
        rw [h.left, Option.map_map, List.length_append]
        congr 1
        funext n
        exact Nat.sub_sub n sent.length line.length
    · obtain ⟨n, hn, short⟩ := not_fits_iff.mp (mt hfits.mpr fits)
      obtain ⟨t, ht, hroom, hreceived⟩ := writeLine_of_short held hn short
      rw [ht]
      refine ⟨⟨?_, ?_, fun all => absurd all fits⟩, fun all => absurd all fits, fun _ => rfl⟩
      · rw [hreceived, h.received, accepted_append before, ← h.left, hn,
          accepted_of_fits before]
        rfl
      · exact hroom.trans (room_left_of_not_fits fits).symm
  · have fits := not_fits_append before line
    obtain ⟨held, ht⟩ := writeLine_of_no_room (h.no_room before) written
    obtain ⟨hreceived, hleft, -⟩ := h.append_of_not_fits before line
    rw [ht]
    exact ⟨⟨hreceived, hleft, fun all => absurd all fits⟩, fun all => absurd all fits, fun _ => rfl⟩

/-- Lines are written to the last exactly if they are all accepted. One that is not is the last
that is written, but the pool gets no more of those behind it than it would if they were. -/
theorem writeLines_delivers {room : Option Nat} {sent : List UInt8} {s : Outbound}
    (h : Delivers room sent s) (before : Fits room sent) {lines : List (List UInt8)}
    (written : ∀ line ∈ lines, line ≠ []) :
    Delivers room (sent ++ lines.flatten) (s.writeLines lines).2 ∧
      ((s.writeLines lines).1 = .ok () ↔ Fits room (sent ++ lines.flatten)) := by
  induction lines generalizing sent s with
  | nil =>
    rw [writeLines, List.flatten_nil, List.append_nil]
    exact ⟨h, iff_of_true rfl before⟩
  | cons line rest ih =>
    have hrest : ∀ other ∈ rest, other ≠ [] :=
      fun other ho => written other (List.mem_cons_of_mem _ ho)
    obtain ⟨hdelivers, hok, herror⟩ := writeLine_delivers h (written line List.mem_cons_self)
    rw [writeLines, List.flatten_cons, ← List.append_assoc]
    by_cases fits : Fits room (sent ++ line)
    · have ht : s.writeLine line = (.ok (), (s.writeLine line).2) := Prod.ext (hok fits) rfl
      rw [ht]
      exact ih hdelivers fits hrest
    · have ht : s.writeLine line = (.error refused, (s.writeLine line).2) :=
        Prod.ext (herror fits) rfl
      rw [ht]
      refine ⟨hdelivers.append_of_not_fits fits _, iff_of_false (fun h => ?_) ?_⟩
      · cases h
      · exact not_fits_append fits _

theorem shutdown_delivers {room : Option Nat} {sent : List UInt8} {s : Outbound}
    (h : Delivers room sent s) : Delivers room sent s.shutdown := by
  by_cases held : s.held = []
  · rw [shutdown, flush_of_nothing_held held]
    exact ⟨h.received, h.left, h.held⟩
  · rw [shutdown, flush_of_no_room (h.settled.resolve_left held) held]
    exact h

end PoolUplink.Wire.Outbound
