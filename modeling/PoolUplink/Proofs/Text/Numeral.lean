import PoolUplink.Proofs.Text.Blank
import PoolUplink.Text.Numeral

/-!
# Numerals are read back

The digits of a number in a base are read as that number, and a numeral that is read holds digits
only. So the decimal form of a number below a bound is an unsigned numeral of that number, and no
blank or sign is in it.
-/

set_option autoImplicit false
set_option relaxedAutoImplicit false

namespace PoolUplink.Text.Numeral

private theorem digit?_digitChar {base d : Nat} (small : base ≤ 16) (h : d < base) :
    digit? base (Nat.digitChar d) = some d := by
  have all : ∀ k : Fin 16, nibble? (Nat.digitChar k) = some k.val := by decide
  have hnibble : nibble? (Nat.digitChar d) = some d := all ⟨d, by omega⟩
  rw [digit?, hnibble, Option.filter_some, if_pos (decide_eq_true h)]

theorem toNat_of_decimal_digit {c : Char} (h : (digit? 10 c).isSome = true) :
    48 ≤ c.toNat ∧ c.toNat ≤ 57 := by
  obtain ⟨d, hd⟩ := Option.isSome_iff_exists.mp h
  obtain ⟨hnibble, hten⟩ := Option.filter_eq_some_iff.mp hd
  have hlt : d < 10 := of_decide_eq_true hten
  simp only [nibble?, Bool.and_eq_true, decide_eq_true_eq] at hnibble
  split at hnibble
  · assumption
  split at hnibble
  · have := Option.some.inj hnibble
    omega
  split at hnibble
  · have := Option.some.inj hnibble
    omega
  · cases hnibble

theorem extend?_append (base acc : Nat) (cs ds : List Char) :
    extend? base acc (cs ++ ds) = (extend? base acc cs).bind fun n => extend? base n ds := by
  induction cs generalizing acc with
  | nil => rfl
  | cons c cs ih =>
    rw [List.cons_append, extend?, extend?]
    cases digit? base c with
    | none => rfl
    | some d => exact ih _

private theorem extend?_digit {base acc d : Nat} {c : Char} (h : digit? base c = some d) :
    extend? base acc [c] = some (acc * base + d) := by
  rw [extend?, h]
  rfl

private theorem digit?_isSome_of_mem {base acc n : Nat} {cs : List Char}
    (h : extend? base acc cs = some n) : ∀ c ∈ cs, (digit? base c).isSome = true := by
  induction cs generalizing acc with
  | nil =>
    intro c hc
    cases hc
  | cons c cs ih =>
    rw [extend?] at h
    obtain ⟨d, hd, hrest⟩ := Option.bind_eq_some_iff.mp h
    rw [List.forall_mem_cons]
    exact ⟨Option.isSome_of_mem hd, ih hrest⟩

/-- The digits of a number in a base state the number. -/
theorem extend?_toDigits {base : Nat} (large : 2 ≤ base) (small : base ≤ 16) (n : Nat) :
    extend? base 0 (Nat.toDigits base n) = some n := by
  induction n using Nat.strongRecOn with
  | ind n ih =>
    rcases Nat.lt_or_ge n base with hn | hn
    · rw [Nat.toDigits_of_lt_base hn, extend?_digit (digit?_digitChar small hn), Nat.zero_mul,
        Nat.zero_add]
    · have hlast : digit? base (Nat.digitChar (n % base)) = some (n % base) :=
        digit?_digitChar small (Nat.mod_lt n (by omega))
      have hfront : extend? base 0 (Nat.toDigits base (n / base)) = some (n / base) :=
        ih (n / base) (Nat.div_lt_self (by omega) large)
      rw [Nat.toDigits_of_base_le large hn, extend?_append, hfront, Option.bind_some,
        extend?_digit hlast, Nat.div_add_mod']

theorem extend?_decimal (n : Nat) : extend? 10 0 (decimal n) = some n :=
  extend?_toDigits (by decide) (by decide) n

theorem digit?_isSome_of_mem_decimal {n : Nat} {c : Char} (h : c ∈ decimal n) :
    (digit? 10 c).isSome = true :=
  digit?_isSome_of_mem (extend?_decimal n) c h

theorem isBlank_of_mem_decimal {n : Nat} {c : Char} (h : c ∈ decimal n) :
    Blank.isBlank c = false := by
  have hrange := toNat_of_decimal_digit (digit?_isSome_of_mem_decimal h)
  simp only [Blank.isBlank, Bool.or_eq_false_iff, Bool.and_eq_false_iff, decide_eq_false_iff_not,
    beq_eq_false_iff_ne]
  omega

theorem trim_decimal (n : Nat) : Blank.trim (decimal n) = decimal n :=
  Blank.trim_of_none fun _ h => isBlank_of_mem_decimal h

theorem not_mem_decimal {c : Char} (h : digit? 10 c = none) (n : Nat) : c ∉ decimal n := by
  intro hc
  have := digit?_isSome_of_mem_decimal hc
  rw [h] at this
  cases this

theorem decimal_ne_nil (n : Nat) : decimal n ≠ [] :=
  Nat.toDigits_ne_nil

private theorem unsigned?_unsigned {base bound : Nat} {cs : List Char} (h : '+' ∉ cs) :
    unsigned? base bound cs = (digits? base cs).filter (· < bound) := by
  unfold unsigned?
  split
  · exact absurd List.mem_cons_self h
  · rfl

private theorem digits?_decimal (n : Nat) : digits? 10 (decimal n) = some n := by
  have hread := extend?_decimal n
  cases hn : decimal n with
  | nil => exact absurd hn (decimal_ne_nil n)
  | cons c cs =>
    rw [hn] at hread
    exact hread

theorem unsigned?_decimal {n bound : Nat} (h : n < bound) :
    unsigned? 10 bound (decimal n) = some n := by
  have hsign : '+' ∉ decimal n := not_mem_decimal (by decide) n
  rw [unsigned?_unsigned hsign, digits?_decimal, Option.filter_some, if_pos (decide_eq_true h)]

end PoolUplink.Text.Numeral
