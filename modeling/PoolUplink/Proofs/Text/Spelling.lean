import PoolUplink.Proofs.Text.Numeral
import Mathlib.Data.List.Forall2
import Mathlib.Data.Nat.Digits.Lemmas

/-!
# The grammar of numerals

A numeral is an optional plus sign and one or more digits, letters in either case, the highest
digit first and any number of zeros in front. The texts that are read as unsigned numerals are
exactly these, of a number below the bound.
-/

set_option autoImplicit false
set_option relaxedAutoImplicit false

namespace PoolUplink.Text.Numeral

def IsDigit (base : Nat) (c : Char) (d : Nat) : Prop :=
  d < base ∧ (c = Nat.digitChar d ∨ c = (Nat.digitChar d).toUpper)

instance (base : Nat) (c : Char) (d : Nat) : Decidable (IsDigit base c d) :=
  inferInstanceAs (Decidable (_ ∧ _))

def Spells (base : Nat) (cs : List Char) (n : Nat) : Prop :=
  ∃ (sign body : List Char) (ds : List Nat), (sign = [] ∨ sign = ['+']) ∧ body ≠ [] ∧
    cs = sign ++ body ∧ List.Forall₂ (IsDigit base) body ds ∧ n = Nat.ofDigits base ds.reverse

private theorem nibble?_eq_some_iff {c : Char} {d : Nat} :
    nibble? c = some d ↔ IsDigit 16 c d := by
  constructor
  · intro h
    -- the three rows of characters, each as the digits of a row of values
    have hdecimal : ∀ k : Fin 10, Char.ofNat (48 + k) = Nat.digitChar k := by decide
    have hupper : ∀ k : Fin 6, Char.ofNat (65 + k) = (Nat.digitChar (10 + k)).toUpper := by decide
    have hlower : ∀ k : Fin 6, Char.ofNat (97 + k) = Nat.digitChar (10 + k) := by decide
    have hc : Char.ofNat c.toNat = c := Char.ofNat_toNat c
    simp only [nibble?, Bool.and_eq_true, decide_eq_true_eq] at h
    split at h
    · rename_i hrow
      have hd := Option.some.inj h
      have hk := hdecimal ⟨d, by omega⟩
      rw [show 48 + d = c.toNat by omega, hc] at hk
      exact ⟨by omega, Or.inl hk⟩
    split at h
    · rename_i hrow
      have hd := Option.some.inj h
      have hk := hupper ⟨d - 10, by omega⟩
      rw [show 65 + (d - 10) = c.toNat by omega, hc, show 10 + (d - 10) = d by omega] at hk
      exact ⟨by omega, Or.inr hk⟩
    split at h
    · rename_i hrow
      have hd := Option.some.inj h
      have hk := hlower ⟨d - 10, by omega⟩
      rw [show 97 + (d - 10) = c.toNat by omega, hc, show 10 + (d - 10) = d by omega] at hk
      exact ⟨by omega, Or.inl hk⟩
    · cases h
  · rintro ⟨hd, hc⟩
    have hread : ∀ k : Fin 16, nibble? (Nat.digitChar k) = some k.val ∧
        nibble? (Nat.digitChar k).toUpper = some k.val := by decide
    rcases hc with rfl | rfl
    · exact (hread ⟨d, hd⟩).1
    · exact (hread ⟨d, hd⟩).2

private theorem digit?_eq_some_iff {base : Nat} (small : base ≤ 16) {c : Char} {d : Nat} :
    digit? base c = some d ↔ IsDigit base c d := by
  rw [digit?, Option.filter_eq_some_iff, nibble?_eq_some_iff, decide_eq_true_eq]
  constructor
  · rintro ⟨⟨-, hc⟩, hd⟩
    exact ⟨hd, hc⟩
  · rintro ⟨hd, hc⟩
    exact ⟨⟨by omega, hc⟩, hd⟩

private theorem extend?_eq_some_iff {base : Nat} (small : base ≤ 16) {acc n : Nat}
    {cs : List Char} :
    extend? base acc cs = some n ↔ ∃ ds, List.Forall₂ (IsDigit base) cs ds ∧
      n = acc * base ^ ds.length + Nat.ofDigits base ds.reverse := by
  induction cs generalizing acc with
  | nil =>
    rw [extend?, Option.some.injEq]
    constructor
    · rintro rfl
      exact ⟨[], .nil, by simp⟩
    · rintro ⟨ds, hds, rfl⟩
      cases hds
      simp
  | cons c cs ih =>
    -- the first digit is worth as many places as there are digits behind it
    have place (d : Nat) (ds : List Nat) :
        (acc * base + d) * base ^ ds.length + Nat.ofDigits base ds.reverse =
          acc * base ^ (d :: ds).length + Nat.ofDigits base (d :: ds).reverse := by
      rw [Nat.ofDigits_reverse_cons, List.length_cons]
      ring
    rw [extend?, Option.bind_eq_some_iff]
    constructor
    · rintro ⟨d, hd, hrest⟩
      obtain ⟨ds, hds, rfl⟩ := ih.mp hrest
      exact ⟨d :: ds, .cons ((digit?_eq_some_iff small).mp hd) hds, place d ds⟩
    · rintro ⟨ds, hds, rfl⟩
      cases hds with
      | @cons _ d _ ds hd hds =>
        exact ⟨d, (digit?_eq_some_iff small).mpr hd, ih.mpr ⟨ds, hds, (place d ds).symm⟩⟩

private theorem digits?_eq_some_iff {base : Nat} (small : base ≤ 16) {n : Nat} {cs : List Char} :
    digits? base cs = some n ↔ cs ≠ [] ∧
      ∃ ds, List.Forall₂ (IsDigit base) cs ds ∧ n = Nat.ofDigits base ds.reverse := by
  cases cs with
  | nil => simp [digits?]
  | cons c cs =>
    rw [digits?, extend?_eq_some_iff small]
    simp

private theorem not_isDigit_plus {base : Nat} (small : base ≤ 16) (d : Nat) :
    ¬ IsDigit base '+' d := by
  rw [← digit?_eq_some_iff small]
  simp [digit?, nibble?]

private theorem spells_plus {base : Nat} (small : base ≤ 16) {n : Nat} (cs : List Char) :
    Spells base ('+' :: cs) n ↔ digits? base cs = some n := by
  rw [digits?_eq_some_iff small]
  constructor
  · rintro ⟨sign, body, ds, rfl | rfl, hbody, hcs, hds, hn⟩
    · -- a sign is no digit
      obtain rfl : '+' :: cs = body := hcs
      cases hds with
      | @cons _ d _ _ hd _ => exact absurd hd (not_isDigit_plus small d)
    · obtain rfl : cs = body := List.tail_eq_of_cons_eq hcs
      exact ⟨hbody, ds, hds, hn⟩
  · rintro ⟨hbody, ds, hds, hn⟩
    exact ⟨['+'], cs, ds, Or.inr rfl, hbody, rfl, hds, hn⟩

private theorem spells_bare {base : Nat} (small : base ≤ 16) {n : Nat} {cs : List Char}
    (bare : ∀ rest, cs ≠ '+' :: rest) : Spells base cs n ↔ digits? base cs = some n := by
  rw [digits?_eq_some_iff small]
  constructor
  · rintro ⟨sign, body, ds, rfl | rfl, hbody, rfl, hds, hn⟩
    · exact ⟨hbody, ds, hds, hn⟩
    · exact absurd rfl (bare body)
  · rintro ⟨hbody, ds, hds, hn⟩
    exact ⟨[], cs, ds, Or.inl rfl, hbody, rfl, hds, hn⟩

theorem unsigned?_eq_some_iff {base : Nat} (small : base ≤ 16) {bound n : Nat} {cs : List Char} :
    unsigned? base bound cs = some n ↔ Spells base cs n ∧ n < bound := by
  unfold unsigned?
  dsimp only
  rw [Option.filter_eq_some_iff, decide_eq_true_eq]
  split
  · rw [spells_plus small]
  · rename_i bare
    rw [spells_bare small bare]

theorem Spells.unsigned?_word {cs : List Char} {word : UInt32} (h : Spells 16 cs word.toNat) :
    unsigned? 16 UInt32.size cs = some word.toNat :=
  (unsigned?_eq_some_iff (by decide)).mpr ⟨h, word.toNat_lt⟩

theorem Spells.unique {base : Nat} (small : base ≤ 16) {cs : List Char} {m n : Nat}
    (hm : Spells base cs m) (hn : Spells base cs n) : m = n := by
  have hm' : unsigned? base (m + n + 1) cs = some m :=
    (unsigned?_eq_some_iff small).mpr ⟨hm, by omega⟩
  have hn' : unsigned? base (m + n + 1) cs = some n :=
    (unsigned?_eq_some_iff small).mpr ⟨hn, by omega⟩
  exact Option.some.inj (hm'.symm.trans hn')

private theorem Spells.plus_or_digit {base : Nat} {cs : List Char} {n : Nat} (h : Spells base cs n)
    {c : Char} (hc : c ∈ cs) : c = '+' ∨ ∃ d, IsDigit base c d := by
  obtain ⟨sign, body, ds, hsign, -, rfl, hds, -⟩ := h
  rcases List.mem_append.mp hc with hc | hc
  · left
    rcases hsign with rfl | rfl
    · cases hc
    · exact List.mem_singleton.mp hc
  · right
    obtain ⟨i, hi, rfl⟩ := List.getElem_of_mem hc
    have hlen : i < ds.length := hds.length_eq ▸ hi
    exact ⟨ds[i], List.Forall₂.get hds hi hlen⟩

theorem Spells.not_mem {base : Nat} (small : base ≤ 16) {cs : List Char} {n : Nat}
    (h : Spells base cs n) {c : Char} (plus : c ≠ '+') (digit : digit? base c = none) :
    c ∉ cs := by
  intro hc
  rcases h.plus_or_digit hc with rfl | ⟨d, hd⟩
  · exact plus rfl
  · rw [← digit?_eq_some_iff small, digit] at hd
    cases hd

theorem spells_of_extend? {base : Nat} (small : base ≤ 16) {n : Nat} {cs : List Char}
    (hne : cs ≠ []) (h : extend? base 0 cs = some n) : Spells base cs n := by
  obtain ⟨ds, hds, hn⟩ := (extend?_eq_some_iff small).mp h
  rw [Nat.zero_mul, Nat.zero_add] at hn
  exact ⟨[], cs, ds, Or.inl rfl, hne, rfl, hds, hn⟩

private theorem extend?_zeros {base : Nat} (positive : 0 < base) (k : Nat) :
    extend? base 0 (List.replicate k '0') = some 0 := by
  induction k with
  | zero => rfl
  | succ k ih =>
    have hzero : digit? base '0' = some 0 := by simp [digit?, nibble?, positive]
    rw [List.replicate_succ, extend?, hzero, Option.bind_some, Nat.zero_mul, Nat.zero_add, ih]

private theorem spells_hex (width n : Nat) : Spells 16 (hex width n) n := by
  refine spells_of_extend? (by decide) ?_ ?_
  · simp [hex, Nat.toDigits_ne_nil]
  · rw [hex, extend?_append, extend?_zeros (by decide), Option.bind_some,
      extend?_toDigits (by decide) (by decide)]

private theorem IsDigit.toUpper {base : Nat} (small : base ≤ 16) {c : Char} {d : Nat}
    (h : IsDigit base c d) : IsDigit base c.toUpper d := by
  have twice : ∀ k : Fin 16,
      (Nat.digitChar k).toUpper.toUpper = (Nat.digitChar k).toUpper := by decide
  obtain ⟨hd, rfl | rfl⟩ := h
  · exact ⟨hd, Or.inr rfl⟩
  · exact ⟨hd, Or.inr (twice ⟨d, by omega⟩)⟩

private theorem Spells.toUpper {base : Nat} (small : base ≤ 16) {cs : List Char} {n : Nat}
    (h : Spells base cs n) : Spells base (cs.map Char.toUpper) n := by
  obtain ⟨sign, body, ds, hsign, hbody, rfl, hds, hn⟩ := h
  refine ⟨sign, body.map Char.toUpper, ds, hsign, by simpa using hbody, ?_, ?_, hn⟩
  · rw [List.map_append]
    rcases hsign with rfl | rfl <;> rfl
  · rw [List.forall₂_map_left_iff]
    exact hds.imp fun _ _ => IsDigit.toUpper small

/-- The hexadecimal digits of a number, in lower or in upper case, filled up with zeros to a width
or not. -/
def Hexadecimal (n : Nat) (digits : List Char) : Prop :=
  ∃ width, digits = hex width n ∨ digits = (hex width n).map Char.toUpper

theorem Hexadecimal.spells {n : Nat} {digits : List Char} (h : Hexadecimal n digits) :
    Spells 16 digits n := by
  obtain ⟨width, rfl | rfl⟩ := h
  · exact spells_hex width n
  · exact (spells_hex width n).toUpper (by decide)

end PoolUplink.Text.Numeral
