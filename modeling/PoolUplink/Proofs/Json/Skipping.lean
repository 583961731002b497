import PoolUplink.Proofs.Json.Escapes

/-!
# Every well-formed value is skipped

Skipping goes over the tokens of a value with a stack of what is open. Each rule of the grammar is
one run of it that leaves the stack as it was, so that by induction a value of any kind and depth
is skipped as one.
-/

set_option autoImplicit false
set_option relaxedAutoImplicit false

namespace PoolUplink.Json

open PoolUplink.Json.Ascii
open PoolUplink.Text.Numeral (IsDigit)
open Numeral (Stops)

namespace Numeral

def NoDigit : List UInt8 → Prop
  | [] => True
  | b :: _ => digit? b = none

private theorem Stops.noDigit {rest : List UInt8} (h : Stops rest) : NoDigit rest := by
  cases rest with
  | nil => exact trivial
  | cons b rest => exact h.1

private theorem utf8EncodeChar_decimal {c : Char} {d : Nat} (h : IsDigit 10 c d) :
    ∃ b : UInt8, String.utf8EncodeChar c = [b] ∧ digit? b = some d ∧ (d = 0 → c = '0') := by
  have all : ∀ k : Fin 10, (Nat.digitChar k).toUpper = Nat.digitChar k ∧
      String.utf8EncodeChar (Nat.digitChar k) = [(Nat.digitChar k).toNat.toUInt8] ∧
        digit? (Nat.digitChar k).toNat.toUInt8 = some k.val := by
    decide
  obtain ⟨hupper, hdigit⟩ := all ⟨d, h.1⟩
  have hc : c = Nat.digitChar d := h.2.elim id fun hc => hc.trans hupper
  exact ⟨_, hc ▸ hdigit.1, hdigit.2, fun hd => hc.trans (hd ▸ rfl)⟩

private theorem DigitRun.utf8 {cs : List Char} (h : DigitRun cs) :
    ∃ b tail, utf8 cs = b :: tail ∧ (digit? b).isSome = true ∧
      (∀ d ∈ tail, (digit? d).isSome = true) ∧ (b = zero → cs.head? = some '0') := by
  obtain ⟨hne, hdigits⟩ := h
  cases cs with
  | nil => exact absurd rfl hne
  | cons c cs =>
    rw [List.forall_mem_cons] at hdigits
    obtain ⟨⟨d, hd⟩, hrest⟩ := hdigits
    obtain ⟨b, hb, hread, hzero⟩ := utf8EncodeChar_decimal hd
    refine ⟨b, Json.utf8 cs, by rw [utf8_cons, hb]; rfl, Option.isSome_of_mem hread, ?_, ?_⟩
    · intro e he
      obtain ⟨c', hc', hmem⟩ := List.mem_flatMap.mp he
      obtain ⟨d', hd'⟩ := hrest c' hc'
      obtain ⟨b', hb', hread', -⟩ := utf8EncodeChar_decimal hd'
      rw [hb', List.mem_singleton] at hmem
      exact hmem ▸ Option.isSome_of_mem hread'
    · rintro rfl
      have hd : some 0 = some d := hread
      rw [hzero (Option.some.inj hd).symm, List.head?_cons]

private theorem skip_append {ds rest : List UInt8} (h : ∀ d ∈ ds, (digit? d).isSome = true)
    (noDigit : NoDigit rest) (count : Nat) : (skip count (ds ++ rest)).2 = rest := by
  induction ds generalizing count with
  | nil =>
    cases rest with
    | nil => rfl
    | cons b rest =>
      have hb : digit? b = none := noDigit
      rw [List.nil_append, skip, hb]
      rfl
  | cons d ds ih =>
    obtain ⟨hd, hds⟩ := List.forall_mem_cons.mp h
    rw [List.cons_append, skip, if_pos hd]
    exact ih hds _

private theorem utf8EncodeChar_letter {letter : Char} (h : letter ∈ ['e', 'E']) :
    ∃ b : UInt8, String.utf8EncodeChar letter = [b] ∧ startsExponent b = true ∧
      digit? b = none ∧ b ≠ point := by
  simp only [List.mem_cons, List.not_mem_nil, or_false] at h
  rcases h with rfl | rfl
  · exact ⟨0x65, by decide⟩
  · exact ⟨0x45, by decide⟩

private theorem Exponent.next {exponent : List Char} (h : Exponent exponent) {rest : List UInt8}
    (stops : Stops rest) :
    NoDigit (Json.utf8 exponent ++ rest) ∧ (Json.utf8 exponent ++ rest).head? ≠ some point := by
  rcases h with rfl | ⟨letter, sign, digits, hletter, -, -, rfl⟩
  · cases rest with
    | nil => exact ⟨trivial, nofun⟩
    | cons b rest => exact ⟨stops.1, fun h => stops.2.1 (Option.some.inj h)⟩
  · obtain ⟨b, hb, -, hdigit, hpoint⟩ := utf8EncodeChar_letter hletter
    rw [utf8_cons, hb]
    exact ⟨hdigit, fun h => hpoint (Option.some.inj h)⟩

private theorem Fraction.noDigit {fraction : List Char} (h : Fraction fraction) {rest : List UInt8}
    (noDigit : NoDigit rest) : NoDigit (Json.utf8 fraction ++ rest) := by
  rcases h with rfl | ⟨digits, -, rfl⟩
  · exact noDigit
  · exact show digit? point = none by decide

end Numeral

namespace Skim

open Numeral

private theorem digits_of_run {cs : List Char} (h : DigitRun cs) {rest : List UInt8}
    (noDigit : NoDigit rest) : digits (utf8 cs ++ rest) = .ok rest := by
  obtain ⟨b, tail, hbytes, hb, htail, -⟩ := h.utf8
  rw [hbytes, List.cons_append, digits, if_pos hb, skip_append htail noDigit]

private theorem exponent_of_wellformed {cs : List Char} (h : Exponent cs) {rest : List UInt8}
    (stops : Stops rest) : exponent (utf8 cs ++ rest) = .ok rest := by
  rcases h with rfl | ⟨letter, sign, digits, hletter, hsign, hdigits, rfl⟩
  · cases rest with
    | nil => rfl
    | cons b rest => exact if_neg (Bool.eq_false_iff.mp stops.2.2)
  · obtain ⟨b, hb, hstarts, -⟩ := utf8EncodeChar_letter hletter
    have hskip := digits_of_run hdigits stops.noDigit
    rw [utf8_cons, hb, utf8_append, List.append_assoc, List.append_assoc, List.singleton_append,
      exponent.eq_def]
    dsimp only
    rw [if_pos hstarts]
    simp only [List.mem_cons, List.not_mem_nil, or_false] at hsign
    rcases hsign with rfl | rfl | rfl
    · obtain ⟨d, tail, hbytes, hd, -⟩ := hdigits.utf8
      have hunsigned : ¬ (d = plus || d = minus) = true := by
        revert hd
        exact forall_byte d (by decide +kernel)
      rw [hbytes] at hskip ⊢
      exact (if_neg hunsigned).trans hskip
    · exact hskip
    · exact hskip

private theorem fraction_of_wellformed {fr ex : List Char} (hfraction : Fraction fr)
    (hexponent : Exponent ex) {rest : List UInt8} (stops : Stops rest) :
    fraction (utf8 fr ++ (utf8 ex ++ rest)) = .ok rest := by
  have hskip := exponent_of_wellformed hexponent stops
  obtain ⟨noDigit, noPoint⟩ := hexponent.next stops
  rcases hfraction with rfl | ⟨digits, hdigits, rfl⟩
  · rw [utf8_nil, List.nil_append]
    cases hinput : utf8 ex ++ rest with
    | nil =>
      rw [hinput] at hskip
      exact hskip
    | cons b tail =>
      rw [hinput] at hskip noPoint
      exact (if_neg fun hb => noPoint (congrArg some hb)).trans hskip
  · have hpoint : utf8 ('.' :: digits) = point :: utf8 digits := rfl
    rw [hpoint, List.cons_append, fraction, if_pos rfl, digits_of_run hdigits noDigit]
    exact hskip

private theorem unsigned_of_whole {cs : List Char} (h : Whole cs) {rest : List UInt8}
    (noDigit : NoDigit rest) : unsigned (utf8 cs ++ rest) = fraction rest := by
  obtain ⟨hrun, halone⟩ := h
  obtain ⟨b, tail, hbytes, hb, htail, hzero⟩ := hrun.utf8
  by_cases hfirst : b = zero
  · obtain rfl := halone (hzero hfirst)
    have hbytes : utf8 ['0'] = [zero] := rfl
    rw [hbytes, List.singleton_append, unsigned.eq_def]
    cases rest with
    | nil => rfl
    | cons c rest =>
      have hc : digit? c = none := noDigit
      simp [hc]
  · rw [hbytes, List.cons_append, unsigned.eq_def]
    dsimp only
    rw [if_neg hfirst, if_pos hb, skip_append htail noDigit]

/-- A value without brackets, which is skipped in one go. -/
structure IsScalar (cs : List Char) : Prop where
  first : ∃ b tail, utf8 cs = b :: tail ∧ isSpace b = false ∧
    b ∉ [openBracket, closeBracket, openBrace, closeBrace]
  skipped : ∀ ⦃rest⦄, Stops rest → scalar (utf8 cs ++ rest) = .ok rest

private theorem isScalar_word {word : String} (h : word ∈ ["null", "true", "false"]) :
    IsScalar word.toList := by
  have hword : word = "null" ∨ word = "true" ∨ word = "false" := by simpa using h
  rcases hword with rfl | rfl | rfl
  · exact ⟨⟨0x6E, bytes "ull", rfl, by decide⟩, fun rest _ => keyword_append (bytes "ull") rest⟩
  · exact ⟨⟨0x74, bytes "rue", rfl, by decide⟩, fun rest _ => keyword_append (bytes "rue") rest⟩
  · exact ⟨⟨0x66, bytes "alse", rfl, by decide⟩, fun rest _ => keyword_append (bytes "alse") rest⟩

private theorem isScalar_literal {content : List Char} (h : Literal.Content content) :
    IsScalar ('"' :: content ++ ['"']) := by
  refine ⟨⟨quote, _, rfl, by decide⟩, ?_⟩
  intro rest _
  rw [List.cons_append, utf8_quote, utf8_append, List.cons_append, List.append_assoc, scalar,
    if_pos rfl]
  exact literal_of_content h rest

private theorem isScalar_numeral {cs : List Char} (h : Numeral.Wellformed cs) : IsScalar cs := by
  obtain ⟨sign, whole, fr, ex, hsign, hwhole, hfraction, hexponent, rfl⟩ := h
  have hskip {rest : List UInt8} (stops : Stops rest) :
      unsigned (utf8 whole ++ (utf8 fr ++ (utf8 ex ++ rest))) = .ok rest := by
    rw [unsigned_of_whole hwhole (hfraction.noDigit (hexponent.next stops).1)]
    exact fraction_of_wellformed hfraction hexponent stops
  simp only [List.mem_cons, List.not_mem_nil, or_false] at hsign
  rcases hsign with rfl | rfl
  · obtain ⟨b, tail, hbytes, hb, -⟩ := hwhole.1.utf8
    have hother : isSpace b = false ∧ b ∉ [openBracket, closeBracket, openBrace, closeBrace] ∧
        b ≠ quote ∧ b ≠ 0x6E ∧ b ≠ 0x74 ∧ b ≠ 0x66 ∧ b ≠ minus := by
      revert hb
      exact forall_byte b (by decide +kernel)
    obtain ⟨hspace, hplain, hquote, hn, ht, hf, hminus⟩ := hother
    refine ⟨⟨b, _, by rw [List.nil_append, utf8_append, hbytes]; rfl, hspace, hplain⟩, ?_⟩
    intro rest stops
    have hskip := hskip stops
    rw [hbytes, List.cons_append] at hskip
    rw [List.nil_append, utf8_append, utf8_append, List.append_assoc, List.append_assoc, hbytes,
      List.cons_append, scalar, if_neg hquote, if_neg hn, if_neg ht, if_neg hf, if_neg hminus]
    exact hskip
  · refine ⟨⟨minus, _, rfl, by decide⟩, ?_⟩
    intro rest stops
    have hminus : utf8 (['-'] ++ (whole ++ (fr ++ ex))) =
        minus :: (utf8 whole ++ (utf8 fr ++ utf8 ex)) := by
      rw [← utf8_append, ← utf8_append]
      rfl
    rw [hminus, List.cons_append, List.append_assoc, List.append_assoc]
    exact hskip stops

section Turns

variable {opened : List Open} {input tail : List UInt8} {b : UInt8}

def Open.last : Open → UInt8
  | .array => closeBracket
  | .object => closeBrace

private theorem upTo_before (hspace : skipSpace input = b :: tail) :
    upTo .before opened input =
      if b = openBracket then
        match skipSpace tail with
        | [] => .error .truncated
        | c :: behind =>
          if c = closeBracket then upTo .behind opened behind
          else upTo .before (.array :: opened) tail
      else if b = openBrace then
        match skipSpace tail with
        | [] => .error .truncated
        | c :: behind =>
          if c = closeBrace then upTo .behind opened behind
          else (name tail).bind (upTo .before (.object :: opened))
      else (scalar (b :: tail)).bind (upTo .behind opened) := by
  rw [upTo.eq_def]
  generalize skipSpace input = read at hspace ⊢
  subst hspace
  dsimp only
  congr 1
  · cases skipSpace tail <;> rfl
  congr 1
  · cases skipSpace tail with
    | nil => rfl
    | cons c behind =>
      dsimp only
      congr 1
      cases name tail <;> rfl
  · cases scalar (b :: tail) <;> rfl

private theorem upTo_behind {o : Open} (hspace : skipSpace input = b :: tail) :
    upTo .behind (o :: opened) input =
      if b = o.last then upTo .behind opened tail
      else if b = comma then
        match o with
        | .array => upTo .before (.array :: opened) tail
        | .object => (name tail).bind (upTo .before (.object :: opened))
      else .error .malformed := by
  rw [upTo.eq_def]
  cases o with
  | array =>
    generalize skipSpace input = read at hspace ⊢
    subst hspace
    rfl
  | object =>
    generalize skipSpace input = read at hspace ⊢
    subst hspace
    dsimp only
    congr 2
    cases name tail <;> rfl

end Turns

private theorem name_of_content {before content gap : List Char} (hbefore : Gap before)
    (hcontent : Literal.Content content) (hgap : Gap gap) (rest : List UInt8) :
    name (utf8 before ++ quote :: (utf8 content ++ quote :: (utf8 gap ++ colon :: rest))) =
      .ok rest := by
  obtain ⟨_, hcolon⟩ := pastColon_of_skipSpace (skipSpace_gap_cons hgap (by decide) rest)
  rw [name, skipSpace_gap_cons hbefore (by decide)]
  dsimp only
  rw [if_pos rfl, literal_of_content hcontent]
  dsimp only
  rw [hcolon]

/-- How the parts of a value are skipped, whatever else is open. -/
def Skipped : Grammar.Symbol → List Char → Prop
  | .value, cs => Starts cs ∧ ∀ (opened : List Open) ⦃gap : List Char⦄ ⦃rest : List UInt8⦄,
      Gap gap → Stops rest →
        upTo .before opened (utf8 gap ++ (utf8 cs ++ rest)) = upTo .behind opened rest
  | .items, cs => Begins cs ∧ ∀ (opened : List Open) (rest : List UInt8),
      upTo .before (.array :: opened) (utf8 cs ++ closeBracket :: rest) = upTo .behind opened rest
  | .members, cs => Begins cs ∧ ∀ (opened : List Open) (rest : List UInt8),
      (name (utf8 cs ++ closeBrace :: rest)).bind (upTo .before (.object :: opened)) =
        upTo .behind opened rest

private theorem skipped_of_isScalar {cs : List Char} (h : IsScalar cs) : Skipped .value cs := by
  obtain ⟨⟨b, tail, hbytes, hspace, hplain⟩, hskipped⟩ := h
  simp only [List.mem_cons, List.not_mem_nil, or_false, not_or] at hplain
  obtain ⟨hopenBracket, hcloseBracket, hopenBrace, hcloseBrace⟩ := hplain
  refine ⟨⟨b, tail, hbytes, hspace, hcloseBracket, hcloseBrace⟩, ?_⟩
  intro opened gap rest hgap stops
  have hread := hskipped stops
  rw [hbytes, List.cons_append] at hread ⊢
  rw [upTo_before (skipSpace_gap_cons hgap hspace _), if_neg hopenBracket, if_neg hopenBrace, hread]
  rfl

private theorem Skipped.step {value before behind : List Char} (h : Skipped .value value)
    (hbefore : Gap before) (hbehind : Gap behind) (opened : List Open) {b : UInt8}
    (token : digit? b = none ∧ b ≠ point ∧ Numeral.startsExponent b = false)
    (rest : List UInt8) :
    upTo .before opened (utf8 before ++ (utf8 value ++ (utf8 behind ++ b :: rest))) =
      upTo .behind opened (utf8 behind ++ b :: rest) :=
  h.2 opened hbefore (stops_gap hbehind token)

private theorem skipped_empty {first last : Char} {gap : List Char} (hgap : Gap gap)
    (h : (first, last) = ('[', ']') ∨ (first, last) = ('{', '}')) :
    Skipped .value (first :: gap ++ [last]) := by
  rcases h with h | h
  · obtain ⟨rfl, rfl⟩ := Prod.mk.inj h
    refine ⟨starts_cons (by decide) (by decide) _, ?_⟩
    intro opened before rest hbefore _
    rw [utf8_brackets]
    rw [upTo_before (skipSpace_gap_cons hbefore (by decide) _), if_pos rfl,
      skipSpace_gap_cons hgap (by decide)]
    exact if_pos rfl
  · obtain ⟨rfl, rfl⟩ := Prod.mk.inj h
    refine ⟨starts_cons (by decide) (by decide) _, ?_⟩
    intro opened before rest hbefore _
    rw [utf8_braces]
    rw [upTo_before (skipSpace_gap_cons hbefore (by decide) _), if_neg (by decide), if_pos rfl,
      skipSpace_gap_cons hgap (by decide)]
    exact if_pos rfl

/-- Skipping follows the grammar. -/
theorem skipped_of_derives {sym : Grammar.Symbol} {cs : List Char} (h : Grammar.Derives sym cs) :
    Skipped sym cs := by
  -- the stack at the end of each rule is the one at its beginning, so the rules go together
  induction h with
  | word hword => exact skipped_of_isScalar (isScalar_word hword)
  | numeral hnumeral => exact skipped_of_isScalar (isScalar_numeral hnumeral)
  | literal hcontent => exact skipped_of_isScalar (isScalar_literal hcontent)
  | emptyArray hgap => exact skipped_empty hgap (.inl rfl)
  | emptyObject hgap => exact skipped_empty hgap (.inr rfl)
  | array _ ih =>
    obtain ⟨hbegins, hitems⟩ := ih
    refine ⟨starts_cons (by decide) (by decide) _, ?_⟩
    intro opened before rest hbefore _
    rw [utf8_brackets]
    obtain ⟨b, tail, hfirst, hb, -⟩ := hbegins.skipSpace (closeBracket :: rest)
    rw [upTo_before (skipSpace_gap_cons hbefore (by decide) _), if_pos rfl, hfirst]
    exact (if_neg hb).trans (hitems opened rest)
  | object _ ih =>
    obtain ⟨hbegins, hmembers⟩ := ih
    refine ⟨starts_cons (by decide) (by decide) _, ?_⟩
    intro opened before rest hbefore _
    rw [utf8_braces]
    obtain ⟨b, tail, hfirst, -, hb⟩ := hbegins.skipSpace (closeBrace :: rest)
    rw [upTo_before (skipSpace_gap_cons hbefore (by decide) _), if_neg (by decide), if_pos rfl,
      hfirst]
    exact (if_neg hb).trans (hmembers opened rest)
  | lastItem hbefore _ hbehind ih =>
    refine ⟨⟨_, _, List.append_assoc .., hbefore, ih.1.append _⟩, ?_⟩
    intro opened rest
    simp only [utf8_append, List.append_assoc]
    rw [ih.step hbefore hbehind _ (by decide),
      upTo_behind (skipSpace_gap_cons hbehind (by decide) _)]
    exact if_pos rfl
  | @moreItems before value behind following hbefore _ hbehind _ ih ihRest =>
    refine ⟨⟨before, value ++ (behind ++ ',' :: following), by simp, hbefore, ih.1.append _⟩, ?_⟩
    intro opened rest
    simp only [utf8_append, List.append_assoc, utf8_comma, List.cons_append]
    rw [ih.step hbefore hbehind _ (by decide),
      upTo_behind (skipSpace_gap_cons hbehind (by decide) _), if_neg (by decide), if_pos rfl]
    exact ihRest.2 opened rest
  | @lastMember before content gap ahead value behind hbefore hcontent hgap hahead _ hbehind ih =>
    refine ⟨⟨before, _, List.append_assoc .., hbefore, starts_cons (by decide) (by decide) _⟩, ?_⟩
    intro opened rest
    simp only [utf8_append, utf8_quote, utf8_colon, List.append_assoc, List.cons_append]
    rw [name_of_content hbefore hcontent hgap]
    refine (ih.step hahead hbehind _ (by decide) _).trans ?_
    rw [upTo_behind (skipSpace_gap_cons hbehind (by decide) _)]
    exact if_pos rfl
  | @moreMembers before content gap ahead value behind following hbefore hcontent hgap hahead _
      hbehind _ ih ihRest =>
    refine ⟨⟨before, '"' :: _, by simp; rfl, hbefore, starts_cons (by decide) (by decide) _⟩, ?_⟩
    intro opened rest
    simp only [utf8_append, utf8_quote, utf8_colon, utf8_comma, List.append_assoc, List.cons_append]
    rw [name_of_content hbefore hcontent hgap]
    refine (ih.step hahead hbehind _ (by decide) _).trans ?_
    rw [upTo_behind (skipSpace_gap_cons hbehind (by decide) _), if_neg (by decide), if_pos rfl]
    exact ihRest.2 opened rest

theorem takes_value {gap cs : List Char} (hgap : Gap gap) (h : Grammar.Derives .value cs)
    {rest : List UInt8} (stops : Stops rest) :
    Takes (value (utf8 gap ++ (utf8 cs ++ rest))) () rest := by
  have hskip : upTo .before [] (utf8 gap ++ (utf8 cs ++ rest)) = .ok rest := by
    rw [(skipped_of_derives h).2 [] hgap stops, upTo]
  unfold value
  split
  · rename_i hfault
    rw [hskip] at hfault
    cases hfault
  · rename_i hread
    rw [hskip] at hread
    cases hread
    exact ⟨_, rfl⟩

end Skim

end PoolUplink.Json
