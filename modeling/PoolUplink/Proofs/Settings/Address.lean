import PoolUplink.Proofs.Text.Numeral
import PoolUplink.Settings.Endpoint

/-!
# Addresses are read back

The text of an address is read as that address, with blanks around it and behind a scheme as well.
The last colon is the one in front of the digits, whatever the host holds. What a host must not do
is to start with a blank or a scheme, which would be taken off it.
-/

set_option autoImplicit false
set_option relaxedAutoImplicit false

namespace PoolUplink.Endpoint

open PoolUplink.Text

/-- An address that a list of pools can name: its host is there, is not cut at a comma, and
starts with nothing that is taken off. -/
structure Plain (e : Endpoint) : Prop where
  named : e.host ≠ ""
  uncut : ',' ∉ e.host.toList
  unblank : ∀ c ∈ e.host.toList.head?, Blank.isBlank c = false
  bare : ∀ scheme ∈ schemes, ¬ scheme <+: e.host.toList

/-- Whether an address is named by an item: by its text, possibly behind a scheme, with any blanks
around. -/
def NamedBy (e : Endpoint) (item : String) : Prop :=
  ∃ before scheme behind : List Char,
    (∀ c ∈ before, Blank.isBlank c = true) ∧ (∀ c ∈ behind, Blank.isBlank c = true) ∧
      scheme ∈ [] :: schemes ∧ item.toList = before ++ (scheme ++ e.chars) ++ behind

structure Untouched (cs : List Char) : Prop where
  unblank : ∀ c ∈ cs.head?, Blank.isBlank c = false
  bare : ∀ scheme ∈ schemes, ¬ scheme <+: cs

private theorem Plain.untouched {e : Endpoint} (h : e.Plain) : Untouched e.host.toList :=
  ⟨h.unblank, h.bare⟩

private theorem host_ne_nil {e : Endpoint} (named : e.host ≠ "") : e.host.toList ≠ [] := by
  intro hnil
  exact named (String.toList_eq_nil_iff.mp hnil)

theorem splitLast?_append (front : List Char) {behind : List Char} (h : ':' ∉ behind) :
    splitLast? (front ++ ':' :: behind) = some (front, behind) := by
  have hrev : (front ++ ':' :: behind).reverse = behind.reverse ++ ':' :: front.reverse := by
    simp
  have hall : ∀ c ∈ behind.reverse, (c != ':') = true := by
    intro c hc
    rw [bne_iff_ne]
    rintro rfl
    exact h (List.mem_reverse.mp hc)
  rw [splitLast?, hrev, List.dropWhile_append_of_pos hall, List.takeWhile_append_of_pos hall]
  simp

theorem dropScheme_of_prefix {scheme : List Char} (h : scheme ∈ schemes) (cs : List Char) :
    dropScheme (scheme ++ cs) = cs := by
  simp only [schemes, List.mem_cons, List.not_mem_nil, or_false] at h
  rcases h with rfl | rfl
  · rfl
  · rfl

theorem dropScheme_of_bare {cs : List Char} (h : ∀ scheme ∈ schemes, ¬ scheme <+: cs) :
    dropScheme cs = cs := by
  have hnone : schemes.find? (·.isPrefixOf cs) = none := by
    rw [List.find?_eq_none]
    intro scheme hscheme hstart
    exact h scheme hscheme (List.isPrefixOf_iff_prefix.mp hstart)
  rw [dropScheme, hnone]

private theorem getLast?_scheme {scheme : List Char} (h : scheme ∈ schemes) :
    scheme.getLast? = some '/' := by
  simp only [schemes, List.mem_cons, List.not_mem_nil, or_false] at h
  rcases h with rfl | rfl <;> rfl

/-- What is behind a host makes no scheme of it: that would go on with a colon, and end in a
slash. -/
theorem prefix_host {scheme host digits : List Char} (h : scheme ∈ schemes) (slash : '/' ∉ digits)
    (hstart : scheme <+: host ++ ':' :: digits) : scheme <+: host := by
  have hhost : host <+: host ++ ':' :: digits := List.prefix_append _ _
  rcases List.prefix_or_prefix_of_prefix hstart hhost with hshort | ⟨tail, rfl⟩
  · exact hshort
  have htail : tail <+: ':' :: digits := (List.prefix_append_right_inj _).mp hstart
  rcases List.eq_nil_or_concat tail with rfl | ⟨front, c, rfl⟩
  · simp
  have hlast := getLast?_scheme h
  rw [List.concat_eq_append, ← List.append_assoc, List.getLast?_concat, Option.some.injEq] at hlast
  have hmem : '/' ∈ ':' :: digits := htail.subset (by simp [hlast])
  rcases List.mem_cons.mp hmem with hcolon | hdigit
  · exact absurd hcolon (by decide)
  · exact absurd hdigit slash

theorem untouched_append {host digits : List Char} (named : host ≠ []) (slash : '/' ∉ digits) :
    Untouched (host ++ ':' :: digits) ↔ Untouched host := by
  have hfirst : (host ++ ':' :: digits).head? = host.head? := by
    obtain ⟨c, tail, rfl⟩ := List.exists_cons_of_ne_nil named
    rfl
  constructor
  · rintro ⟨hunblank, hbare⟩
    refine ⟨hfirst ▸ hunblank, ?_⟩
    intro scheme hscheme hstart
    exact hbare scheme hscheme (hstart.trans (List.prefix_append _ _))
  · rintro ⟨hunblank, hbare⟩
    refine ⟨hfirst.symm ▸ hunblank, ?_⟩
    intro scheme hscheme hstart
    exact hbare scheme hscheme (prefix_host hscheme slash hstart)

private theorem untouched_chars {e : Endpoint} (named : e.host ≠ "") :
    Untouched e.chars ↔ Untouched e.host.toList :=
  untouched_append (host_ne_nil named) (Numeral.not_mem_decimal (by decide) _)

private theorem dropScheme_chars {e : Endpoint} (h : Untouched e.chars) {scheme : List Char}
    (hscheme : scheme ∈ [] :: schemes) : dropScheme (scheme ++ e.chars) = e.chars := by
  rcases List.mem_cons.mp hscheme with rfl | hscheme
  · exact dropScheme_of_bare h.bare
  · exact dropScheme_of_prefix hscheme e.chars

private theorem ofBare?_chars {e : Endpoint} (h : e.host.toList ≠ []) :
    ofBare? e.chars = some e := by
  have hsplit : splitLast? e.chars = some (e.host.toList, Numeral.decimal e.portNumber.toNat) :=
    splitLast?_append _ (Numeral.not_mem_decimal (by decide) _)
  have hhost : e.host.toList.isEmpty = false := List.isEmpty_eq_false_iff.mpr h
  have hnumber := Numeral.unsigned?_decimal e.portNumber.toNat_lt
  rw [ofBare?, hsplit]
  simp only [hhost]
  rw [if_neg Bool.false_ne_true, hnumber]
  simp

private theorem trim_chars {e : Endpoint} (h : Untouched e.chars) {scheme : List Char}
    (hscheme : scheme ∈ [] :: schemes) : Blank.trim (scheme ++ e.chars) = scheme ++ e.chars := by
  apply Blank.trim_of_ends
  · simp only [schemes, List.mem_cons, List.not_mem_nil, or_false] at hscheme
    rcases hscheme with rfl | rfl | rfl
    · exact h.unblank
    · rintro _ ⟨⟩
      decide
    · rintro _ ⟨⟩
      decide
  · intro c hc
    rcases List.eq_nil_or_concat (Numeral.decimal e.portNumber.toNat) with hnil | ⟨front, d, hd⟩
    · exact absurd hnil (Numeral.decimal_ne_nil _)
    · have hsplit : scheme ++ e.chars = scheme ++ (e.host.toList ++ ':' :: front) ++ [d] := by
        simp [chars, hd]
      have hlast : (scheme ++ e.chars).getLast? = some d := by
        rw [hsplit, List.getLast?_concat]
      have hmem : d ∈ Numeral.decimal e.portNumber.toNat := by simp [hd]
      obtain rfl := Option.some.inj (hlast.symm.trans hc)
      exact Numeral.isBlank_of_mem_decimal hmem

theorem read_chars {e : Endpoint} (named : e.host ≠ "") (h : Untouched e.host.toList)
    {scheme : List Char} (hscheme : scheme ∈ [] :: schemes) :
    ofBare? (dropScheme (Blank.trim (scheme ++ e.chars))) = some e := by
  have hchars : Untouched e.chars := (untouched_chars named).mpr h
  rw [trim_chars hchars hscheme, dropScheme_chars hchars hscheme, ofBare?_chars (host_ne_nil named)]

private theorem comma_not_mem_chars {e : Endpoint} (h : e.Plain) {scheme : List Char}
    (hscheme : scheme ∈ [] :: schemes) : ',' ∉ scheme ++ e.chars := by
  have hdigits : ',' ∉ Numeral.decimal e.portNumber.toNat := Numeral.not_mem_decimal (by decide) _
  have hfront : ',' ∉ scheme := by
    revert scheme
    decide
  simp only [chars, List.mem_append, List.mem_cons, not_or]
  exact ⟨hfront, h.uncut, by decide, hdigits⟩

section Items

variable {e : Endpoint} {item : String} (plain : e.Plain) (named : e.NamedBy item)
include plain named

theorem ofText?_of_namedBy : ofText? item = some e := by
  obtain ⟨before, scheme, behind, hbefore, hbehind, hscheme, hitem⟩ := named
  rw [ofText?, hitem, Blank.trim_surround hbefore hbehind,
    read_chars plain.named plain.untouched hscheme]

theorem trim_ne_nil_of_namedBy : Blank.trim item.toList ≠ [] := by
  obtain ⟨before, scheme, behind, hbefore, hbehind, hscheme, hitem⟩ := named
  have hchars : Untouched e.chars := (untouched_chars plain.named).mpr plain.untouched
  rw [hitem, Blank.trim_surround hbefore hbehind, trim_chars hchars hscheme]
  simp [chars]

theorem comma_not_mem_of_namedBy : ',' ∉ item.toList := by
  obtain ⟨before, scheme, behind, hbefore, hbehind, hscheme, hitem⟩ := named
  have hblank {cs : List Char} (h : ∀ c ∈ cs, Blank.isBlank c = true) : ',' ∉ cs :=
    fun hc => absurd (h _ hc) (by decide)
  rw [hitem, List.mem_append, List.mem_append, not_or, not_or]
  exact ⟨⟨hblank hbefore, comma_not_mem_chars plain hscheme⟩, hblank hbehind⟩

end Items

end PoolUplink.Endpoint
