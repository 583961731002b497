import PoolUplink.Json.Step
import PoolUplink.Json.Value

/-!
# Numerals

A numeral is a sign, digits, and possibly a fraction and an exponent. Its digits are gathered into
one natural number while it stays below `2 ^ 64`; digits beyond that only move the point, and
those of a fraction are dropped. A whole number of 64 bits is kept exactly; every other numeral
is scaled to a double.
-/

set_option autoImplicit false
set_option relaxedAutoImplicit false

namespace PoolUplink.Json.Numeral

open PoolUplink.Json.Ascii

/-- Digits taken off an input: their value behind those before, and how many they are. -/
structure Digits where
  value : Nat
  count : Nat
  rest : List UInt8

/-- Takes digits while the value stays within 64 bits. -/
def gather (value count : Nat) : List UInt8 → Digits
  | [] => ⟨value, count, []⟩
  | b :: rest =>
    match digit? b with
    | some d =>
      if value * 10 + d < UInt64.size then gather (value * 10 + d) (count + 1) rest
      else ⟨value, count, b :: rest⟩
    | none => ⟨value, count, b :: rest⟩

def skip (count : Nat) : List UInt8 → Nat × List UInt8
  | [] => (count, [])
  | b :: rest => if (digit? b).isSome then skip (count + 1) rest else (count, b :: rest)

def whole (value : Nat) : List UInt8 → Nat × List UInt8
  | [] => (value, [])
  | b :: rest =>
    match digit? b with
    | some d => whole (value * 10 + d) rest
    | none => (value, b :: rest)

private theorem gather_length_le (value count : Nat) (input : List UInt8) :
    (gather value count input).rest.length ≤ input.length := by
  induction input generalizing value count with
  | nil => exact Nat.le_refl _
  | cons b rest ih =>
    unfold gather
    split
    · split
      · exact Nat.le_succ_of_le (ih _ _)
      · exact Nat.le_refl _
    · exact Nat.le_refl _

theorem skip_length_le (count : Nat) (input : List UInt8) :
    (skip count input).2.length ≤ input.length := by
  induction input generalizing count with
  | nil => exact Nat.le_refl _
  | cons b rest ih =>
    unfold skip
    split
    · exact Nat.le_succ_of_le (ih _)
    · exact Nat.le_refl _

private theorem whole_length_le (value : Nat) (input : List UInt8) :
    (whole value input).2.length ≤ input.length := by
  induction input generalizing value with
  | nil => exact Nat.le_refl _
  | cons b rest ih =>
    unfold whole
    split
    · exact Nat.le_succ_of_le (ih _)
    · exact Nat.le_refl _

/-- The digits before the point: none may follow a leading zero. Returns their value, how many of
them did not fit into it, and the rest. -/
def integerPart : List UInt8 → Except Fault (Nat × Nat × List UInt8)
  | [] => .error .truncated
  | b :: rest =>
    match digit? b with
    | none => .error .malformed
    | some 0 =>
      match rest with
      | c :: _ => if (digit? c).isSome then .error .malformed else .ok (0, 0, rest)
      | [] => .ok (0, 0, rest)
    | some d =>
      let ds := gather d 1 rest
      let (extra, rest) := skip 0 ds.rest
      .ok (ds.value, extra, rest)

/-- The digits behind the point, of which there must be one. Returns the value they extend, how
many went into it, and the rest. -/
def fraction (value : Nat) (input : List UInt8) : Except Fault (Nat × Nat × List UInt8) :=
  let ds := gather value 0 input
  match ds.rest with
  | [] => if ds.count = 0 then .error .truncated else .ok (ds.value, ds.count, [])
  | b :: _ =>
    if ds.count = 0 && (digit? b).isNone then .error .malformed
    else .ok (ds.value, ds.count, (skip 0 ds.rest).2)

def exponent (input : List UInt8) : Except Fault (Int × List UInt8) :=
  let (negative, digits) := match input with
    | b :: rest => if b = plus then (false, rest) else if b = minus then (true, rest)
      else (false, input)
    | [] => (false, input)
  match digits with
  | [] => .error .truncated
  | b :: rest =>
    match digit? b with
    | none => .error .malformed
    | some d =>
      let (value, rest) := whole d rest
      .ok (if negative then -(value : Int) else value, rest)

def startsExponent (b : UInt8) : Bool := b == 0x45 || b == 0x65

/-- A numeral without its sign: `value * 10 ^ exponent`, and whether it is a plain run of digits
that fit. -/
structure Decimal where
  value : Nat
  exponent : Int
  plain : Bool

def withExponent (value : Nat) (before : Int) (plain : Bool) (input : List UInt8) :
    Except Fault (Decimal × List UInt8) :=
  match input with
  | b :: rest =>
    if startsExponent b then
      match exponent rest with
      | .error fault => .error fault
      | .ok (e, rest) => .ok (⟨value, before + e, false⟩, rest)
    else .ok (⟨value, before, plain⟩, input)
  | [] => .ok (⟨value, before, plain⟩, input)

def decimal (input : List UInt8) : Except Fault (Decimal × List UInt8) :=
  match integerPart input with
  | .error fault => .error fault
  | .ok (value, extra, rest) =>
    match rest with
    | b :: behind =>
      if b = point then
        match fraction value behind with
        | .error fault => .error fault
        | .ok (value, count, rest) => withExponent value ((extra : Int) - count) false rest
      else withExponent value extra (extra == 0) rest
    | [] => withExponent value extra (extra == 0) rest

/-- The number that a numeral states. A minus sign before a plain zero makes a double, and so
does one before a number of more than 64 bits with it. -/
def number (negative : Bool) (d : Decimal) : Except Fault Number :=
  let signed : Int := if negative then -(d.value : Int) else d.value
  if h : d.plain = true ∧ (negative = true → d.value ≠ 0) ∧ Exact signed then
    .ok (.whole signed h.2.2)
  else
    match Binary64.scale? (Binary64.ofNat d.value) d.exponent with
    | some x => .ok (.double (if negative then x.neg else x))
    | none => .error .malformed

private theorem integerPart_length_lt {input rest : List UInt8} {value extra : Nat}
    (h : integerPart input = .ok (value, extra, rest)) : rest.length < input.length := by
  unfold integerPart at h
  split at h
  · cases h
  · rename_i b tail
    split at h
    · cases h
    · split at h
      · split at h
        · cases h
        · cases h; simp
      · cases h; simp
    · rename_i d _ _
      cases h
      have h1 := gather_length_le d 1 tail
      have h2 := skip_length_le 0 (gather d 1 tail).rest
      simp only [List.length_cons]
      omega

private theorem fraction_length_le {input rest : List UInt8} {value out count : Nat}
    (h : fraction value input = .ok (out, count, rest)) : rest.length ≤ input.length := by
  unfold fraction at h
  have h1 := gather_length_le value 0 input
  have h2 := skip_length_le 0 (gather value 0 input).rest
  dsimp only at h
  split at h
  · split at h
    · cases h
    · cases h; simp
  · split at h
    · cases h
    · cases h; omega

private theorem exponent_length_le {input rest : List UInt8} {e : Int}
    (h : exponent input = .ok (e, rest)) : rest.length ≤ input.length := by
  unfold exponent at h
  dsimp only at h
  split at h
  · cases h
  · rename_i b tail heq
    split at h
    · cases h
    · rename_i d _
      cases h
      have h1 := whole_length_le d tail
      have h2 : (b :: tail).length ≤ input.length := by
        rw [← heq]
        split
        · split
          · simp
          · split <;> simp
        · simp
      simp only [List.length_cons] at h2
      omega

private theorem withExponent_length_le {value : Nat} {before : Int} {plain : Bool}
    {input rest : List UInt8} {d : Decimal}
    (h : withExponent value before plain input = .ok (d, rest)) :
    rest.length ≤ input.length := by
  unfold withExponent at h
  split at h
  · split at h
    · split at h
      · cases h
      · rename_i heq
        cases h
        exact Nat.le_succ_of_le (exponent_length_le heq)
    · cases h; exact Nat.le_refl _
  · cases h; exact Nat.le_refl _

private theorem decimal_length_lt {input rest : List UInt8} {d : Decimal}
    (h : decimal input = .ok (d, rest)) : rest.length < input.length := by
  unfold decimal at h
  split at h
  · cases h
  · rename_i value extra tail hi
    have h1 := integerPart_length_lt hi
    split at h
    · rename_i b behind
      simp only [List.length_cons] at h1
      split at h
      · split at h
        · cases h
        · rename_i hf
          have h2 := fraction_length_le hf
          have h3 := withExponent_length_le h
          omega
      · have h3 := withExponent_length_le h
        simp only [List.length_cons] at h3
        omega
    · have h3 := withExponent_length_le h
      omega

def sign : List UInt8 → Bool × List UInt8
  | [] => (false, [])
  | b :: rest => if b = minus then (true, rest) else (false, b :: rest)

private theorem sign_length_le (input : List UInt8) : (sign input).2.length ≤ input.length := by
  unfold sign
  split
  · exact Nat.le_refl _
  · split <;> simp

def read : Reader Number := fun input =>
  match h : decimal (sign input).2 with
  | .error fault => .error fault
  | .ok (d, rest) =>
    match number (sign input).1 d with
    | .error fault => .error fault
    | .ok n => .ok ⟨n, rest, Nat.lt_of_lt_of_le (decimal_length_lt h) (sign_length_le input)⟩

end PoolUplink.Json.Numeral
