import PoolUplink.Wire.Cursor
import PoolUplink.Wire.Item

/-!
# Reading in chunks is reading the flat stream

Every read of a chunked stream has the result of the same read of the flat stream at its position,
and leaves it at the position that the flat read leaves. So what a stream yields is a function of
its bytes and its ending.
-/

set_option autoImplicit false
set_option relaxedAutoImplicit false

namespace PoolUplink.Wire

namespace Inbound

private theorem fill_ending (ending : Ending) (begun : Nat) (held : List UInt8)
    (chunks : List (List UInt8)) : (fill ending begun held chunks).ending = ending := by
  induction chunks generalizing held with
  | nil => cases held <;> rfl
  | cons chunk chunks ih =>
    cases held with
    | cons b held => rfl
    | nil =>
      cases chunk with
      | nil => exact ih []
      | cons b chunk => rfl

private theorem lineFrom_ending (ending : Ending) (begun : Nat) (taken held : List UInt8)
    (chunks : List (List UInt8)) :
    (lineFrom ending begun taken held chunks).2.ending = ending := by
  induction chunks generalizing begun taken held with
  | nil =>
    unfold lineFrom
    split <;> rfl
  | cons chunk chunks ih =>
    unfold lineFrom
    split
    · rfl
    · exact ih _ _ _

private theorem exactFrom_ending (orderly : Fault) (ending : Ending) (begun n : Nat)
    (taken held : List UInt8) (chunks : List (List UInt8)) :
    (exactFrom orderly ending begun n taken held chunks).2.ending = ending := by
  induction chunks generalizing begun n taken held with
  | nil =>
    unfold exactFrom
    split <;> rfl
  | cons chunk chunks ih =>
    unfold exactFrom
    split
    · rfl
    · exact ih _ _ _ _

theorem cursor_eq {s : Inbound} {ahead : List UInt8} {ending : Ending}
    (bytes : s.remaining = ahead) (ends : s.ending = ending) : s.cursor = ⟨ahead, ending⟩ := by
  subst bytes ends
  rfl

private theorem splitLine?_eq (bytes : List UInt8) :
    splitLine? bytes = if lineEnd ∈ bytes then
      some (bytes.take (bytes.idxOf lineEnd + 1), bytes.drop (bytes.idxOf lineEnd + 1))
    else none := by
  induction bytes with
  | nil => rfl
  | cons b bytes ih =>
    rw [splitLine?_cons]
    by_cases hb : b = lineEnd
    · simp [hb]
    · have hm : lineEnd ∈ b :: bytes ↔ lineEnd ∈ bytes := by simp [Ne.symm hb]
      have hi : (b :: bytes).idxOf lineEnd = bytes.idxOf lineEnd + 1 := by
        rw [List.idxOf_cons, beq_false_of_ne hb, cond_false]
      rw [if_neg hb, ih, hi]
      by_cases h : lineEnd ∈ bytes
      · simp [h, hm]
      · simp [h, hm]

theorem peek_flat (s : Inbound) : s.peek.1 = s.cursor.peek ∧ s.peek.2.cursor = s.cursor := by
  have hr := fill_remaining s.ending s.begun s.held s.chunks
  have he := fill_ending s.ending s.begun s.held s.chunks
  have hc : (fill s.ending s.begun s.held s.chunks).cursor = s.cursor := cursor_eq hr he
  unfold peek Cursor.peek
  cases hh : (fill s.ending s.begun s.held s.chunks).held with
  | nil =>
    have hn : s.cursor.ahead = [] := fill_held_eq_nil hh
    simp only [hh, hn]
    exact ⟨rfl, hc⟩
  | cons b held =>
    rw [remaining, hh] at hr
    have hb : s.cursor.ahead =
        b :: (held ++ (fill s.ending s.begun s.held s.chunks).chunks.flatten) := hr.symm
    simp only [hh, hb]
    exact ⟨trivial, hc⟩

theorem line_flat (s : Inbound) : (s.line.1, s.line.2.cursor) = s.cursor.line := by
  have h1 := lineFrom_fst s.ending s.begun [] s.held s.chunks
  have h2 := lineFrom_remaining s.ending s.begun [] s.held s.chunks
  have h3 := lineFrom_ending s.ending s.begun [] s.held s.chunks
  rw [splitLine?_eq] at h1 h2
  change ((lineFrom _ _ _ _ _).1, (lineFrom _ _ _ _ _).2.cursor) =
    Cursor.line ⟨s.held ++ s.chunks.flatten, s.ending⟩
  rw [cursor_eq h2 h3, h1, Cursor.line]
  by_cases hm : lineEnd ∈ s.held ++ s.chunks.flatten
  · simp only [if_pos hm]
    rfl
  · simp only [if_neg hm]
    rfl

/-- What a read of `n` bytes comes to depends on the flat bytes; the fault of an orderly end is
the reader's. -/
theorem exactFrom_flat (orderly : Fault) (s : Inbound) (n : Nat) :
    exactFrom orderly s.ending s.begun n [] s.held s.chunks =
      (if n ≤ s.remaining.length then .got (s.remaining.take n) else s.ending.reading orderly,
        (exactFrom orderly s.ending s.begun n [] s.held s.chunks).2) ∧
    (exactFrom orderly s.ending s.begun n [] s.held s.chunks).2.cursor =
      ⟨s.remaining.drop n, s.ending⟩ := by
  refine ⟨Prod.ext ?_ rfl, ?_⟩
  · exact exactFrom_fst orderly s.ending s.begun n [] s.held s.chunks
  · exact cursor_eq (exactFrom_remaining _ _ _ _ _ _ _) (exactFrom_ending _ _ _ _ _ _ _)

theorem exact_flat (s : Inbound) (n : Nat) :
    ((s.exact n).1, (s.exact n).2.cursor) = s.cursor.exact n := by
  obtain ⟨h1, h2⟩ := exactFrom_flat cutOff s n
  unfold exact Cursor.exact
  change _ = if n ≤ s.remaining.length
    then (Reading.got (s.remaining.take n), Cursor.mk (s.remaining.drop n) s.ending)
    else (s.ending.reading cutOff, Cursor.mk [] s.ending)
  rw [h2, h1]
  by_cases hn : n ≤ s.remaining.length
  · simp only [if_pos hn]
  · simp only [if_neg hn, List.drop_eq_nil_of_le (Nat.le_of_not_le hn)]

theorem discard_flat (s : Inbound) (n : Nat) :
    ((s.discard n).1, (s.discard n).2.cursor) = s.cursor.discard n := by
  obtain ⟨h1, h2⟩ := exactFrom_flat .disconnected s n
  unfold discard Cursor.discard
  change _ = if n ≤ s.remaining.length
    then (Reading.got (), Cursor.mk (s.remaining.drop n) s.ending)
    else (s.ending.reading .disconnected, Cursor.mk [] s.ending)
  rw [h1]
  by_cases hn : n ≤ s.remaining.length
  · simp only [if_pos hn, h2]
  · rw [List.drop_eq_nil_of_le (Nat.le_of_not_le hn)] at h2
    simp only [if_neg hn]
    rw [← h2]
    cases s.ending <;> rfl

end Inbound

namespace Cursor

def skipBody (header : Frame.Header) (c : Cursor) : Reading Item × Cursor :=
  if header.bodyLength = 0 then (.got (.frame header), c)
  else match c.discard header.bodyLength with
    | (.got _, d) => (.got (.frame header), d)
    | (.failed fault, d) => (.failed fault, d)
    | (.waiting, d) => (.waiting, d)

def frame (c : Cursor) : Reading Item × Cursor :=
  match c.exact Frame.headerSize with
  | (.got raw, d) =>
    match Frame.Header.decode raw with
    | .ok header => skipBody header d
    | .error fault => (.failed fault, d)
  | (.failed fault, d) => (.failed fault, d)
  | (.waiting, d) => (.waiting, d)

def lineItem (c : Cursor) : Reading Item × Cursor :=
  match c.line with
  | (.got bytes, d) => (.got (.line bytes), d)
  | (.failed fault, d) => (.failed fault, d)
  | (.waiting, d) => (.waiting, d)

def item (c : Cursor) : Reading Item × Cursor :=
  match c.peek with
  | .got b => if b = Frame.mark then c.frame else c.lineItem
  | .failed fault => (.failed fault, c)
  | .waiting => (.waiting, c)

end Cursor

namespace Item

private theorem skipBody_flat (header : Frame.Header) (s : Inbound) :
    ((skipBody header s).1, (skipBody header s).2.cursor) = s.cursor.skipBody header := by
  unfold skipBody Cursor.skipBody
  split
  · rfl
  · rw [← s.discard_flat header.bodyLength]
    rcases s.discard header.bodyLength with ⟨r, t⟩
    cases r <;> rfl

private theorem readFrame_flat (s : Inbound) :
    ((readFrame s).1, (readFrame s).2.cursor) = s.cursor.frame := by
  unfold readFrame Cursor.frame
  rw [← s.exact_flat Frame.headerSize]
  rcases s.exact Frame.headerSize with ⟨r, t⟩
  cases r with
  | got raw =>
    cases hd : Frame.Header.decode raw with
    | ok header =>
      simp only [hd]
      exact skipBody_flat header t
    | error fault => simp only [hd]
  | failed fault => rfl
  | waiting => rfl

private theorem readLine_flat (s : Inbound) :
    ((readLine s).1, (readLine s).2.cursor) = s.cursor.lineItem := by
  unfold readLine Cursor.lineItem
  rw [← s.line_flat]
  rcases s.line with ⟨r, t⟩
  cases r <;> rfl

theorem read_flat (s : Inbound) : ((read s).1, (read s).2.cursor) = s.cursor.item := by
  obtain ⟨h1, h2⟩ := s.peek_flat
  unfold read Cursor.item
  rw [← h1]
  generalize s.peek = p at h2
  obtain ⟨r, t⟩ := p
  cases r with
  | got b =>
    by_cases hb : b = Frame.mark
    · simp only [if_pos hb]
      rw [readFrame_flat, h2]
    · simp only [if_neg hb]
      rw [readLine_flat, h2]
  | failed fault => exact Prod.ext rfl h2
  | waiting => exact Prod.ext rfl h2

end Item

end PoolUplink.Wire
