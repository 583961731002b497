import PoolUplink.Json.Step

/-!
# String literals

Writing puts a text between quotes and escapes its quotes, backslashes and controls. Reading
takes the content up to the closing quote and checks at the end that it is well-formed text. A
character beyond the first plane may be escaped as a pair of surrogates; a surrogate alone is no
character.
-/

set_option autoImplicit false
set_option relaxedAutoImplicit false

namespace PoolUplink.Json.Literal

open PoolUplink.Json.Ascii

def escapeByte (b : UInt8) : List UInt8 :=
  match shortOf? b with
  | some c => [backslash, c]
  | none =>
    if b < 0x20 then
      [backslash, letterU, zero, zero, nibble (b.toNat / 16), nibble (b.toNat % 16)]
    else [b]

def write (s : String) : List UInt8 :=
  quote :: (bytes s).flatMap escapeByte ++ [quote]

def hex4 : List UInt8 → Except Fault (Nat × List UInt8)
  | a :: b :: c :: d :: rest =>
    match nibble? a, nibble? b, nibble? c, nibble? d with
    | some w, some x, some y, some z => .ok (((w * 16 + x) * 16 + y) * 16 + z, rest)
    | _, _, _, _ => .error .malformed
  | _ => .error .truncated

/-- The first of a pair of surrogates. -/
def isLeading (n : Nat) : Bool := 0xD800 ≤ n && n ≤ 0xDBFF

/-- The second of a pair of surrogates. -/
def isTrailing (n : Nat) : Bool := 0xDC00 ≤ n && n ≤ 0xDFFF

def encode (n : Nat) : List UInt8 := String.utf8EncodeChar (Char.ofNat n)

/-- Reads the second of a pair of surrogates and gives the bytes of the character. -/
def trailing (leading : Nat) : List UInt8 → Except Fault (List UInt8 × List UInt8)
  | [] => .error .truncated
  | b :: rest =>
    if b ≠ backslash then .error .malformed
    else match rest with
      | [] => .error .truncated
      | u :: rest =>
        if u ≠ letterU then .error .malformed
        else match hex4 rest with
          | .error fault => .error fault
          | .ok (n, rest) =>
            if isTrailing n then
              .ok (encode (0x10000 + (leading - 0xD800) * 0x400 + (n - 0xDC00)), rest)
            else .error .malformed

/-- Reads the digits of a numbered escape, and a second one if they name half a pair. -/
def numbered (input : List UInt8) : Except Fault (List UInt8 × List UInt8) :=
  match hex4 input with
  | .error fault => .error fault
  | .ok (n, rest) =>
    if isTrailing n then .error .malformed
    else if isLeading n then trailing n rest
    else .ok (encode n, rest)

def escape : List UInt8 → Except Fault (List UInt8 × List UInt8)
  | [] => .error .truncated
  | b :: rest =>
    match ofShort? b with
    | some c => .ok ([c], rest)
    | none => if b = letterU then numbered rest else .error .malformed

theorem hex4_length_lt {input rest : List UInt8} {n : Nat} (h : hex4 input = .ok (n, rest)) :
    rest.length < input.length := by
  unfold hex4 at h
  split at h
  · split at h
    · simp only [Except.ok.injEq, Prod.mk.injEq] at h
      obtain ⟨-, rfl⟩ := h
      simp only [List.length_cons]
      omega
    · cases h
  · cases h

private theorem trailing_length_lt {leading : Nat} {input out rest : List UInt8}
    (h : trailing leading input = .ok (out, rest)) : rest.length < input.length := by
  unfold trailing at h
  split at h
  · cases h
  · split at h
    · cases h
    · split at h
      · cases h
      · split at h
        · cases h
        · split at h
          · cases h
          · rename_i heq
            have := hex4_length_lt heq
            split at h
            · simp only [Except.ok.injEq, Prod.mk.injEq] at h
              obtain ⟨-, rfl⟩ := h
              simp only [List.length_cons]
              omega
            · cases h

private theorem numbered_length_lt {input out rest : List UInt8}
    (h : numbered input = .ok (out, rest)) : rest.length < input.length := by
  unfold numbered at h
  split at h
  · cases h
  · rename_i heq
    have := hex4_length_lt heq
    split at h
    · cases h
    · split at h
      · have := trailing_length_lt h
        omega
      · cases h; exact this

private theorem escape_length_lt {input out rest : List UInt8}
    (h : escape input = .ok (out, rest)) : rest.length < input.length := by
  unfold escape at h
  split at h
  · cases h
  · split at h
    · cases h; simp
    · split at h
      · have := numbered_length_lt h
        simp only [List.length_cons]; omega
      · cases h

/-- Collects the content of a literal up to the closing quote, behind what has been collected in
reverse. Returns the content and what follows the quote. -/
def scan (content : List UInt8) : List UInt8 → Except Fault (List UInt8 × List UInt8)
  | [] => .error .truncated
  | b :: rest =>
    if b = quote then .ok (content.reverse, rest)
    else if b = backslash then
      match _h : escape rest with
      | .error fault => .error fault
      | .ok (out, rest') => scan (out.reverse ++ content) rest'
    else if b < 0x20 then .error .malformed
    else scan (b :: content) rest
termination_by input => input.length
decreasing_by
  · have := escape_length_lt _h
    simp only [List.length_cons]
    omega
  · simp

private theorem scan_length_lt {content input out rest : List UInt8}
    (h : scan content input = .ok (out, rest)) : rest.length < input.length := by
  fun_induction scan content input with
  | case1 => cases h
  | case2 => cases h; simp
  | case3 => cases h
  | case4 _ _ _ _ he _ ih =>
    have h1 := ih h
    have h2 := escape_length_lt he
    simp only [List.length_cons]
    omega
  | case5 => cases h
  | case6 _ _ _ _ _ _ ih =>
    have := ih h
    simp only [List.length_cons]
    omega

def read : Reader String := fun input =>
  match h : scan [] input with
  | .error fault => .error fault
  | .ok (content, rest) =>
    match String.fromUTF8? ⟨content.toArray⟩ with
    | some text => .ok ⟨text, rest, scan_length_lt h⟩
    | none => .error .malformed

end PoolUplink.Json.Literal
