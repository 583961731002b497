import PoolUplink.Json.Reader

/-!
# Skipping values

A value that nobody asked for only has to be well formed. It may nest to any depth, its numbers
may have any size, and its numbered escapes need not name characters.
-/

set_option autoImplicit false
set_option relaxedAutoImplicit false

namespace PoolUplink.Json.Skim

open PoolUplink.Json.Ascii

def literal : List UInt8 → Except Fault (List UInt8)
  | [] => .error .truncated
  | b :: rest =>
    if b = quote then .ok rest
    else if b = backslash then
      match rest with
      | [] => .error .truncated
      | c :: rest =>
        if (ofShort? c).isSome then literal rest
        else if c = letterU then
          match _h : Literal.hex4 rest with
          | .error fault => .error fault
          | .ok (_, rest) => literal rest
        else .error .malformed
    else if b < 0x20 then .error .malformed
    else literal rest
termination_by input => input.length
decreasing_by
  · simp only [List.length_cons]; omega
  · have := Literal.hex4_length_lt _h
    simp only [List.length_cons] at *; omega
  · simp

private theorem literal_length_lt {input rest : List UInt8} (h : literal input = .ok rest) :
    rest.length < input.length := by
  fun_induction literal input with
  | case1 => cases h
  | case2 => cases h; simp
  | case3 => cases h
  | case4 _ _ _ _ ih =>
    have := ih h
    simp only [List.length_cons]; omega
  | case5 => cases h
  | case6 _ _ _ hx _ _ ih =>
    have h1 := ih h
    have h2 := Literal.hex4_length_lt hx
    simp only [List.length_cons]; omega
  | case7 => cases h
  | case8 => cases h
  | case9 _ _ _ _ _ ih =>
    have := ih h
    simp only [List.length_cons]; omega

def digits : List UInt8 → Except Fault (List UInt8)
  | [] => .error .malformed
  | b :: rest => if (digit? b).isSome then .ok (Numeral.skip 0 rest).2 else .error .malformed

def exponent : List UInt8 → Except Fault (List UInt8)
  | [] => .ok []
  | b :: rest =>
    if Numeral.startsExponent b then
      match rest with
      | c :: behind => if c = plus || c = minus then digits behind else digits rest
      | [] => .error .malformed
    else .ok (b :: rest)

def fraction : List UInt8 → Except Fault (List UInt8)
  | [] => .ok []
  | b :: rest =>
    if b = point then
      match digits rest with
      | .error fault => .error fault
      | .ok rest => exponent rest
    else exponent (b :: rest)

def unsigned : List UInt8 → Except Fault (List UInt8)
  | [] => .error .malformed
  | b :: rest =>
    if b = zero then
      match rest with
      | c :: _ => if (digit? c).isSome then .error .malformed else fraction rest
      | [] => .ok []
    else if (digit? b).isSome then fraction (Numeral.skip 0 rest).2
    else .error .malformed

private theorem digits_length_lt {input rest : List UInt8} (h : digits input = .ok rest) :
    rest.length < input.length := by
  unfold digits at h
  split at h
  · cases h
  · rename_i b tail
    split at h
    · cases h
      have := Numeral.skip_length_le 0 tail
      simp only [List.length_cons]; omega
    · cases h

private theorem exponent_length_le {input rest : List UInt8} (h : exponent input = .ok rest) :
    rest.length ≤ input.length := by
  unfold exponent at h
  split at h
  · cases h; simp
  · split at h
    · split at h
      · split at h <;>
        · have := digits_length_lt h
          simp only [List.length_cons] at *; omega
      · cases h
    · cases h; simp

private theorem fraction_length_le {input rest : List UInt8} (h : fraction input = .ok rest) :
    rest.length ≤ input.length := by
  unfold fraction at h
  split at h
  · cases h; simp
  · split at h
    · split at h
      · cases h
      · rename_i hd
        have h1 := digits_length_lt hd
        have h2 := exponent_length_le h
        simp only [List.length_cons]; omega
    · exact exponent_length_le h

private theorem unsigned_length_lt {input rest : List UInt8} (h : unsigned input = .ok rest) :
    rest.length < input.length := by
  unfold unsigned at h
  split at h
  · cases h
  · rename_i b tail
    split at h
    · split at h
      · split at h
        · cases h
        · have := fraction_length_le h
          simp only [List.length_cons] at *; omega
      · cases h; simp
    · split at h
      · have h1 := fraction_length_le h
        have h2 := Numeral.skip_length_le 0 tail
        simp only [List.length_cons]; omega
      · cases h

def scalar : List UInt8 → Except Fault (List UInt8)
  | [] => .error .truncated
  | b :: rest =>
    if b = quote then literal rest
    else if b = 0x6E then keyword (bytes "ull") rest
    else if b = 0x74 then keyword (bytes "rue") rest
    else if b = 0x66 then keyword (bytes "alse") rest
    else if b = minus then unsigned rest
    else unsigned (b :: rest)

private theorem scalar_length_lt {input rest : List UInt8} (h : scalar input = .ok rest) :
    rest.length < input.length := by
  unfold scalar at h
  split at h
  · cases h
  · simp only [List.length_cons]
    split at h
    · have := literal_length_lt h; omega
    split at h
    · have := keyword_length_le h; omega
    split at h
    · have := keyword_length_le h; omega
    split at h
    · have := keyword_length_le h; omega
    split at h
    · have := unsigned_length_lt h; omega
    · have := unsigned_length_lt h
      simpa using this

def name (input : List UInt8) : Except Fault (List UInt8) :=
  match skipSpace input with
  | [] => .error .truncated
  | b :: rest =>
    if b = quote then
      match literal rest with
      | .error fault => .error fault
      | .ok rest =>
        match pastColon rest with
        | .error fault => .error fault
        | .ok c => .ok c.rest
    else .error .malformed

private theorem name_length_lt {input rest : List UInt8} (h : name input = .ok rest) :
    rest.length < input.length := by
  unfold name at h
  split at h
  · cases h
  · rename_i hs
    have h1 := length_lt_of_skipSpace hs
    split at h
    · split at h
      · cases h
      · rename_i hl
        have h2 := literal_length_lt hl
        split at h
        · cases h
        · rename_i c _
          cases h
          have h3 := c.shorter
          omega
    · cases h

inductive Open where
  | array
  | object
  deriving DecidableEq, Repr

/-- Where skipping stands: before a value, or behind one. -/
inductive Place where
  | before
  | behind
  deriving DecidableEq, Repr

/-- Skips to the end of the outermost of the open arrays and objects, or of one value if none is
open. The innermost comes first. -/
def upTo (place : Place) (opened : List Open) (input : List UInt8) :
    Except Fault (List UInt8) :=
  match place, opened with
  | .behind, [] => .ok input
  | .behind, .array :: outer =>
    match _h : skipSpace input with
    | [] => .error .truncated
    | b :: rest =>
      if b = closeBracket then upTo .behind outer rest
      else if b = comma then upTo .before opened rest
      else .error .malformed
  | .behind, .object :: outer =>
    match _h : skipSpace input with
    | [] => .error .truncated
    | b :: rest =>
      if b = closeBrace then upTo .behind outer rest
      else if b = comma then
        match _hn : name rest with
        | .error fault => .error fault
        | .ok rest => upTo .before opened rest
      else .error .malformed
  | .before, _ =>
    match _h : skipSpace input with
    | [] => .error .truncated
    | b :: rest =>
      if b = openBracket then
        match _hr : skipSpace rest with
        | [] => .error .truncated
        | c :: behind =>
          if c = closeBracket then upTo .behind opened behind
          else upTo .before (.array :: opened) rest
      else if b = openBrace then
        match _hr : skipSpace rest with
        | [] => .error .truncated
        | c :: behind =>
          if c = closeBrace then upTo .behind opened behind
          else match _hn : name rest with
            | .error fault => .error fault
            | .ok rest => upTo .before (.object :: opened) rest
      else match _hs : scalar (b :: rest) with
        | .error fault => .error fault
        | .ok rest => upTo .behind opened rest
termination_by input.length
decreasing_by
  all_goals
    have h0 := length_lt_of_skipSpace _h
    first
      | exact h0
      | (have h1 := length_lt_of_skipSpace _hr; omega)
      | (have h1 := name_length_lt _hn; omega)
      | (have h1 := scalar_length_lt _hs; simp only [List.length_cons] at h1; omega)

/-- Skipping a value takes at least one byte; ending the open ones takes none if there is none. -/
theorem upTo_length {place : Place} {opened : List Open} {input rest : List UInt8}
    (h : upTo place opened input = .ok rest) :
    rest.length ≤ input.length ∧ (place = .before → rest.length < input.length) := by
  fun_induction upTo place opened input with
  | case1 => cases h; exact ⟨Nat.le_refl _, nofun⟩
  | case2 | case5 | case6 | case8 | case10 | case11 | case12 | case15 | case17 | case19 => cases h
  | case3 _ _ _ hs ih | case7 _ _ _ hs ih =>
    have h0 := length_lt_of_skipSpace hs
    have h1 := (ih h).1
    exact ⟨by omega, nofun⟩
  | case4 _ _ _ hs _ ih =>
    have h0 := length_lt_of_skipSpace hs
    have h1 := (ih h).1
    exact ⟨by omega, nofun⟩
  | case9 _ _ _ _ hn hs _ ih =>
    have h0 := length_lt_of_skipSpace hs
    have h1 := name_length_lt hn
    have h2 := (ih h).1
    exact ⟨by omega, nofun⟩
  | case13 _ _ _ _ hr hs ih =>
    have h0 := length_lt_of_skipSpace hs
    have h1 := length_lt_of_skipSpace hr
    have h2 := (ih h).1
    exact ⟨by omega, fun _ => by omega⟩
  | case14 _ _ _ _ _ _ _ hs ih =>
    have h0 := length_lt_of_skipSpace hs
    have h1 := (ih h).1
    exact ⟨by omega, fun _ => by omega⟩
  | case16 _ _ _ _ hs _ hr ih =>
    have h0 := length_lt_of_skipSpace hs
    have h1 := length_lt_of_skipSpace hr
    have h2 := (ih h).1
    exact ⟨by omega, fun _ => by omega⟩
  | case18 _ _ _ _ _ _ _ _ hn hs _ ih =>
    have h0 := length_lt_of_skipSpace hs
    have h1 := name_length_lt hn
    have h2 := (ih h).1
    exact ⟨by omega, fun _ => by omega⟩
  | case20 _ _ _ _ hs _ _ _ hn ih =>
    have h0 := length_lt_of_skipSpace hs
    have h1 := scalar_length_lt hn
    have h2 := (ih h).1
    simp only [List.length_cons] at h1
    exact ⟨by omega, fun _ => by omega⟩

def value : Reader Unit := fun input =>
  match h : upTo .before [] input with
  | .error fault => .error fault
  | .ok rest => .ok ⟨(), rest, (upTo_length h).2 rfl⟩

end PoolUplink.Json.Skim
