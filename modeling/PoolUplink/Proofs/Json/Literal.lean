import PoolUplink.Proofs.Json.Takes

/-!
# String literals are read back

A literal holds the text byte by byte: each byte as it is, behind a backslash, or as a numbered
escape of a control. Every way is undone by one turn of the scan, whatever the text is; that the
bytes are well-formed is what makes them a text.
-/

set_option autoImplicit false
set_option relaxedAutoImplicit false

namespace PoolUplink.Json

open PoolUplink.Json.Ascii

namespace Ascii

@[elab_as_elim]
theorem forall_byte {P : UInt8 → Prop} (b : UInt8) (h : ∀ k : Fin 256, P (UInt8.ofNat k)) :
    P b := by
  have := h ⟨b.toNat, b.toNat_lt⟩
  rwa [UInt8.ofNat_toNat] at this

@[elab_as_elim]
theorem forall_control {P : UInt8 → Prop} {b : UInt8} (control : b < 0x20)
    (h : ∀ k : Fin 32, P (UInt8.ofNat k)) : P b := by
  have := h ⟨b.toNat, control⟩
  rwa [UInt8.ofNat_toNat] at this

private theorem nibble?_nibble {n : Nat} (h : n < 16) : nibble? (nibble n) = some n := by
  have all : ∀ k : Fin 16, nibble? (nibble k) = some k.val := by decide
  exact all ⟨n, h⟩

private theorem ofShort?_of_shortOf? {b c : UInt8} (h : shortOf? b = some c) :
    ofShort? c = some b := by
  have all : (shortOf? b).all (fun d => ofShort? d == some b) = true :=
    forall_byte b (by decide +kernel)
  rw [h] at all
  exact eq_of_beq all

private theorem fromUTF8?_bytes (s : String) : String.fromUTF8? ⟨(bytes s).toArray⟩ = some s := by
  have h : (⟨(bytes s).toArray⟩ : ByteArray) = s.toByteArray := by
    rw [bytes, Array.toArray_toList, String.toUTF8_eq_toByteArray]
  rw [h, String.fromUTF8?, dif_pos s.isValidUTF8]
  rfl

end Ascii

namespace Literal

private theorem encode_of_control {b : UInt8} (h : b < 0x20) : encode b.toNat = [b] :=
  forall_control h (by decide)

private theorem hex4_of_control (b : UInt8) (rest : List UInt8) :
    hex4 (zero :: zero :: nibble (b.toNat / 16) :: nibble (b.toNat % 16) :: rest) =
      .ok (b.toNat, rest) := by
  have hlt := b.toNat_lt
  have hz : nibble? zero = some 0 := by decide
  simp only [hex4, hz, nibble?_nibble (show b.toNat / 16 < 16 by omega),
    nibble?_nibble (show b.toNat % 16 < 16 by omega)]
  congr 2
  omega

private theorem escape_escapeByte {b : UInt8} (h : escapeByte b ≠ [b]) (rest : List UInt8) :
    ∃ tail, escapeByte b = backslash :: tail ∧ escape (tail ++ rest) = .ok ([b], rest) := by
  unfold escapeByte at h ⊢
  cases hs : shortOf? b with
  | some c =>
    refine ⟨[c], rfl, ?_⟩
    rw [List.singleton_append, escape, ofShort?_of_shortOf? hs]
  | none =>
    rw [hs] at h
    by_cases control : b < 0x20
    · have hsmall : b.toNat < 0x20 := control
      have ht : isTrailing b.toNat = false := by
        simp only [isTrailing, Bool.and_eq_false_iff, decide_eq_false_iff_not]
        omega
      have hl : isLeading b.toNat = false := by
        simp only [isLeading, Bool.and_eq_false_iff, decide_eq_false_iff_not]
        omega
      refine ⟨_, if_pos control, ?_⟩
      have hu : ofShort? letterU = none := by decide
      simp only [List.cons_append, List.nil_append, escape, hu, numbered, hex4_of_control, ht, hl,
        encode_of_control control]
      rfl
    · exact absurd (if_neg control) h

theorem scan_escaped {content input out rest : List UInt8} (h : escape input = .ok (out, rest)) :
    scan content (backslash :: input) = scan (out.reverse ++ content) rest := by
  rw [scan, if_neg (by decide), if_pos rfl]
  split
  · rename_i he
    rw [h] at he
    cases he
  · rename_i ho
    rw [h] at ho
    cases ho
    rfl

theorem plain_of_escapeByte {b : UInt8} (h : escapeByte b = [b]) :
    b ≠ quote ∧ b ≠ backslash ∧ ¬ b < 0x20 := by
  refine ⟨?_, ?_, ?_⟩
  · rintro rfl
    exact absurd h (by decide)
  · rintro rfl
    exact absurd h (by decide)
  · intro control
    unfold escapeByte at h
    cases hs : shortOf? b with
    | some c => simp [hs] at h
    | none => simp [hs, control] at h

theorem scan_plain {content rest : List UInt8} {b : UInt8} (h : escapeByte b = [b]) :
    scan content (b :: rest) = scan (b :: content) rest := by
  obtain ⟨hq, hb, hc⟩ := plain_of_escapeByte h
  rw [scan, if_neg hq, if_neg hb, if_neg hc]

/-- Scanning undoes the escapes up to the closing quote. -/
theorem scan_escapes (content text rest : List UInt8) :
    scan content (text.flatMap escapeByte ++ quote :: rest) =
      .ok (content.reverse ++ text, rest) := by
  induction text generalizing content with
  | nil => rw [List.flatMap_nil, List.nil_append, scan, if_pos rfl, List.append_nil]
  | cons b text ih =>
    rw [List.flatMap_cons, List.append_assoc]
    have hnext : scan (b :: content) (text.flatMap escapeByte ++ quote :: rest) =
        .ok (content.reverse ++ b :: text, rest) := by
      rw [ih, List.reverse_cons, List.append_assoc]
      rfl
    by_cases plain : escapeByte b = [b]
    · rw [plain, List.singleton_append, scan_plain plain, hnext]
    · obtain ⟨tail, hb, he⟩ :=
        escape_escapeByte plain (text.flatMap escapeByte ++ quote :: rest)
      rw [hb, List.cons_append, scan_escaped he]
      exact hnext

theorem write_append (s : String) (rest : List UInt8) :
    write s ++ rest = quote :: ((bytes s).flatMap escapeByte ++ quote :: rest) := by
  simp [write]

theorem takes_of_scan {input rest : List UInt8} {s : String}
    (h : scan [] input = .ok (bytes s, rest)) : Takes (read input) s rest := by
  unfold read
  split
  · rename_i he
    rw [h] at he
    cases he
  · rename_i ho
    rw [h] at ho
    cases ho
    rw [fromUTF8?_bytes]
    exact ⟨_, rfl⟩

theorem takes_read (s : String) (rest : List UInt8) :
    Takes (read ((bytes s).flatMap escapeByte ++ quote :: rest)) s rest :=
  takes_of_scan (scan_escapes [] (bytes s) rest)

private theorem no_control_of_mem_escapeByte {b c : UInt8} (h : c ∈ escapeByte b) : ¬ c < 0x20 := by
  unfold escapeByte at h
  cases hs : shortOf? b with
  | some d =>
    rw [hs] at h
    simp only [List.mem_cons, List.not_mem_nil, or_false] at h
    rcases h with rfl | rfl
    · decide
    · intro control
      have unescaped : ofShort? c = none := forall_control control (by decide)
      rw [ofShort?_of_shortOf? hs] at unescaped
      cases unescaped
  | none =>
    rw [hs] at h
    dsimp only at h
    split at h
    · have hlt := b.toNat_lt
      have digits : ∀ k : Fin 16, ¬ nibble k < 0x20 := by decide
      simp only [List.mem_cons, List.not_mem_nil, or_false] at h
      rcases h with rfl | rfl | rfl | rfl | rfl | rfl
      any_goals decide
      · exact digits ⟨b.toNat / 16, by omega⟩
      · exact digits ⟨b.toNat % 16, by omega⟩
    · rename_i control
      obtain rfl := List.mem_singleton.mp h
      exact control

theorem no_control_of_mem_write {s : String} {c : UInt8} (h : c ∈ write s) : ¬ c < 0x20 := by
  simp only [write, List.cons_append, List.mem_cons, List.mem_append, List.mem_flatMap,
    List.not_mem_nil, or_false] at h
  rcases h with rfl | ⟨b, -, hc⟩ | rfl
  · decide
  · exact no_control_of_mem_escapeByte hc
  · decide

end Literal

theorem Takes.name (s : String) (rest : List UInt8) :
    Takes (Reader.name (Literal.write s ++ rest)) s rest := by
  rw [Literal.write_append]
  refine .onByte (by decide) ?_
  obtain ⟨_, h⟩ := Literal.takes_read s rest
  rw [if_pos rfl, h]
  exact ⟨_, rfl⟩

end PoolUplink.Json
