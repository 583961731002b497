import PoolUplink.Wire.Inbound

/-!
# Reading does not depend on chunks

The result of every read, and the bytes that remain after it, are functions of the bytes that
remained before: a line goes up to the first line end, a read of `n` bytes takes `n`, and a read
that meets the end uses up what there was.
-/

set_option autoImplicit false
set_option relaxedAutoImplicit false

namespace PoolUplink.Wire.Inbound

theorem splitLine?_nil : splitLine? [] = none := rfl

theorem splitLine?_cons (b : UInt8) (rest : List UInt8) :
    splitLine? (b :: rest) =
      if b = lineEnd then some ([b], rest)
      else (splitLine? rest).map fun p => (b :: p.1, p.2) := by
  by_cases h : b = lineEnd
  · simp [splitLine?, h]
  · simp only [splitLine?, h, if_false, bne_iff_ne, ne_eq, not_false_eq_true,
      List.dropWhile_cons_of_pos, List.takeWhile_cons_of_pos]
    cases rest.dropWhile (· != lineEnd) <;> rfl

private theorem splitLine?_append (front back : List UInt8) :
    splitLine? (front ++ back) =
      match splitLine? front with
      | some (l, r) => some (l, r ++ back)
      | none => (splitLine? back).map fun p => (front ++ p.1, p.2) := by
  induction front with
  | nil => cases h : splitLine? back <;> simp [splitLine?_nil, h]
  | cons b front ih =>
    simp only [List.cons_append, splitLine?_cons]
    by_cases h : b = lineEnd
    · simp [h]
    · simp only [h, if_false, ih]
      cases splitLine? front with
      | none => cases splitLine? back <;> rfl
      | some p => rfl

private theorem splitLine?_eq_some {bytes front rest : List UInt8}
    (h : splitLine? bytes = some (front, rest)) :
    bytes = front ++ rest ∧ front ≠ [] := by
  induction bytes generalizing front with
  | nil => simp [splitLine?_nil] at h
  | cons b bytes ih =>
    rw [splitLine?_cons] at h
    by_cases hb : b = lineEnd
    · simp only [hb, if_true, Option.some.injEq, Prod.mk.injEq] at h
      obtain ⟨rfl, rfl⟩ := h
      simp [hb]
    · simp only [hb, if_false, Option.map_eq_some_iff] at h
      obtain ⟨p, hp, heq⟩ := h
      cases heq
      simpa using (ih hp).1

theorem fill_remaining (ending : Ending) (begun : Nat) (held : List UInt8)
    (chunks : List (List UInt8)) :
    (fill ending begun held chunks).remaining = held ++ chunks.flatten := by
  induction chunks generalizing held with
  | nil => cases held <;> simp [fill, remaining]
  | cons chunk chunks ih =>
    cases held with
    | cons b held => simp [fill, remaining]
    | nil => cases chunk with
      | nil => simpa [fill] using ih []
      | cons b chunk => simp [fill, remaining]

theorem fill_held_eq_nil {ending : Ending} {begun : Nat} {held : List UInt8}
    {chunks : List (List UInt8)} (h : (fill ending begun held chunks).held = []) :
    held ++ chunks.flatten = [] := by
  induction chunks generalizing held with
  | nil => cases held <;> simp_all [fill]
  | cons chunk chunks ih =>
    cases held with
    | cons b held => simp [fill] at h
    | nil => cases chunk with
      | nil =>
        simp only [fill] at h
        simpa using ih h
      | cons b chunk => simp [fill] at h

/-- The result of reading a line depends on the bytes alone, not on how they are chunked. -/
theorem lineFrom_fst (ending : Ending) (begun : Nat) (taken held : List UInt8)
    (chunks : List (List UInt8)) :
    (lineFrom ending begun taken held chunks).1 =
      match splitLine? (held ++ chunks.flatten) with
      | some (front, _) => .got (taken ++ front)
      | none => ending.reading .disconnected := by
  induction chunks generalizing begun taken held with
  | nil =>
    unfold lineFrom
    cases h : splitLine? held <;> simp [h]
  | cons chunk chunks ih =>
    unfold lineFrom
    rw [List.flatten_cons, splitLine?_append held]
    cases h : splitLine? held with
    | none =>
      simp only [ih]
      cases splitLine? (chunk ++ chunks.flatten) <;> simp
    | some p => rfl

theorem lineFrom_remaining (ending : Ending) (begun : Nat) (taken held : List UInt8)
    (chunks : List (List UInt8)) :
    (lineFrom ending begun taken held chunks).2.remaining =
      ((splitLine? (held ++ chunks.flatten)).map Prod.snd).getD [] := by
  induction chunks generalizing begun taken held with
  | nil =>
    unfold lineFrom
    cases h : splitLine? held <;> simp [h, remaining]
  | cons chunk chunks ih =>
    unfold lineFrom
    rw [List.flatten_cons, splitLine?_append held]
    cases h : splitLine? held with
    | none =>
      simp only [ih]
      cases splitLine? (chunk ++ chunks.flatten) <;> simp
    | some p => simp [remaining]

private theorem length_take_eq_iff {n : Nat} {bytes : List UInt8} :
    (bytes.take n).length = n ↔ n ≤ bytes.length := by
  rw [List.length_take]
  omega

theorem exactFrom_fst (orderly : Fault) (ending : Ending) (begun n : Nat)
    (taken held : List UInt8) (chunks : List (List UInt8)) :
    (exactFrom orderly ending begun n taken held chunks).1 =
      if n ≤ (held ++ chunks.flatten).length then
        .got (taken ++ (held ++ chunks.flatten).take n)
      else ending.reading orderly := by
  induction chunks generalizing begun n taken held with
  | nil =>
    simp only [exactFrom, length_take_eq_iff]
    by_cases h : n ≤ held.length <;> simp [h]
  | cons chunk chunks ih =>
    simp only [exactFrom, length_take_eq_iff]
    by_cases h : n ≤ held.length
    · have h' : n ≤ (held ++ (chunk :: chunks).flatten).length := by
        rw [List.length_append]; omega
      rw [if_pos h, if_pos h', List.take_append_of_le_length h]
    · have h2 : held.take n = held := List.take_of_length_le (by omega)
      have h3 : (n - held.length ≤ (chunk ++ chunks.flatten).length) ↔
          (n ≤ (held ++ (chunk :: chunks).flatten).length) := by
        rw [List.length_append, List.length_append, List.flatten_cons, List.length_append]; omega
      rw [if_neg h, ih]
      simp only [h3, List.flatten_cons, @List.take_append _ held, h2, List.append_assoc]

theorem exactFrom_remaining (orderly : Fault) (ending : Ending) (begun n : Nat)
    (taken held : List UInt8) (chunks : List (List UInt8)) :
    (exactFrom orderly ending begun n taken held chunks).2.remaining =
      (held ++ chunks.flatten).drop n := by
  induction chunks generalizing begun n taken held with
  | nil =>
    simp only [exactFrom, length_take_eq_iff]
    by_cases h : n ≤ held.length
    · simp [h, remaining]
    · simp [h, remaining, Nat.le_of_not_le h]
  | cons chunk chunks ih =>
    simp only [exactFrom, length_take_eq_iff]
    by_cases h : n ≤ held.length
    · simp [h, remaining, List.drop_append_of_le_length h]
    · rw [if_neg h, ih, List.flatten_cons, @List.drop_append _ held,
        List.drop_eq_nil_of_le (Nat.le_of_not_le h), List.nil_append]

theorem peek_remaining (s : Inbound) : s.peek.2.remaining = s.remaining := by
  unfold peek
  have h := fill_remaining s.ending s.begun s.held s.chunks
  dsimp only
  split <;> exact h

theorem remaining_of_line_got {s : Inbound} {l : List UInt8} (h : s.line.1 = .got l) :
    s.remaining = l ++ s.line.2.remaining ∧ l ≠ [] := by
  unfold line at *
  rw [lineFrom_fst] at h
  rw [lineFrom_remaining]
  unfold remaining
  cases hs : splitLine? (s.held ++ s.chunks.flatten) with
  | none =>
    rw [hs] at h
    cases he : s.ending <;> simp [he, Ending.reading] at h
  | some p =>
    rw [hs] at h
    obtain ⟨front, rest⟩ := p
    simp only [List.nil_append, Reading.got.injEq] at h
    subst h
    simpa using splitLine?_eq_some hs

theorem remaining_of_exact_got {s : Inbound} {n : Nat} {bytes : List UInt8}
    (h : (s.exact n).1 = .got bytes) :
    s.remaining = bytes ++ (s.exact n).2.remaining ∧ bytes.length = n := by
  unfold exact at *
  rw [exactFrom_fst] at h
  rw [exactFrom_remaining]
  unfold remaining
  by_cases hn : n ≤ (s.held ++ s.chunks.flatten).length
  · rw [if_pos hn] at h
    simp only [List.nil_append, Reading.got.injEq] at h
    subst h
    exact ⟨(List.take_append_drop n _).symm, List.length_take_of_le hn⟩
  · rw [if_neg hn] at h
    cases he : s.ending <;> simp [he, Ending.reading] at h

theorem discard_remaining (s : Inbound) (n : Nat) :
    (s.discard n).2.remaining = s.remaining.drop n := by
  have h := exactFrom_remaining .disconnected s.ending s.begun n [] s.held s.chunks
  unfold discard
  split <;> rename_i heq <;> rw [heq] at h <;> exact h

end PoolUplink.Wire.Inbound
