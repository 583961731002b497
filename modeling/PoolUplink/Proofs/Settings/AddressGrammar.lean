import PoolUplink.Proofs.Settings.Address
import PoolUplink.Proofs.Text.Spelling
import PoolUplink.Settings.Basic

/-!
# The grammar of addresses

An address is stated between blanks, behind at most one scheme, as a host and a number with the
last colon between them. Exactly the texts of this form are read, as that host and that number, and
every other text is refused as it is.
-/

set_option autoImplicit false
set_option relaxedAutoImplicit false

namespace PoolUplink

namespace Endpoint

open PoolUplink.Text

inductive Unschemed : List Char → List Char → Prop
  | scheme {scheme : List Char} (cs : List Char) : scheme ∈ schemes → Unschemed (scheme ++ cs) cs
  | bare {cs : List Char} : (∀ scheme ∈ schemes, ¬ scheme <+: cs) → Unschemed cs cs

/-- A host that is not empty and a number below `2 ^ 16`, with the last colon between them. -/
def StatedBare (e : Endpoint) (cs : List Char) : Prop :=
  ∃ (host digits : List Char) (n : Nat), cs = host ++ ':' :: digits ∧ ':' ∉ digits ∧ host ≠ [] ∧
    Numeral.Spells 10 digits n ∧ n ≤ 65535 ∧ e = ⟨String.ofList host, n.toUInt16⟩

/-- A text states an address: between blanks and behind at most one scheme. -/
def StatedBy (e : Endpoint) (s : String) : Prop :=
  ∃ core bare : List Char,
    Blank.Trims s.toList core ∧ Unschemed core bare ∧ e.StatedBare bare

theorem unschemed_iff {cs rest : List Char} : Unschemed cs rest ↔ dropScheme cs = rest := by
  constructor
  · intro h
    cases h with
    | scheme _ hscheme => exact dropScheme_of_prefix hscheme rest
    | bare hbare => exact dropScheme_of_bare hbare
  · rintro rfl
    unfold dropScheme
    split
    · rename_i scheme hfind
      have hstart := List.find?_some hfind
      obtain ⟨tail, rfl⟩ := List.isPrefixOf_iff_prefix.mp hstart
      rw [List.drop_left]
      exact .scheme tail (List.mem_of_find?_eq_some hfind)
    · rename_i hfind
      apply Unschemed.bare
      intro scheme hscheme hstart
      have hnone := List.find?_eq_none.mp hfind scheme hscheme
      exact hnone (List.isPrefixOf_iff_prefix.mpr hstart)

private theorem splitLast?_eq_some_iff {cs front behind : List Char} :
    splitLast? cs = some (front, behind) ↔ cs = front ++ ':' :: behind ∧ ':' ∉ behind := by
  constructor
  · intro h
    have hsplit := List.takeWhile_append_dropWhile (p := (· != ':')) (l := cs.reverse)
    unfold splitLast? at h
    split at h
    · cases h
    · rename_i c tail htail
      have hcolon := List.head?_dropWhile_not (· != ':') cs.reverse
      rw [htail] at hcolon hsplit
      obtain rfl : c = ':' := by simpa using hcolon
      cases h
      constructor
      · calc cs = cs.reverse.reverse := (List.reverse_reverse cs).symm
          _ = (cs.reverse.takeWhile (· != ':') ++ ':' :: tail).reverse := by rw [hsplit]
          _ = tail.reverse ++ ':' :: (cs.reverse.takeWhile (· != ':')).reverse := by simp
      · intro hmem
        have himp := List.mem_takeWhile_imp (List.mem_reverse.mp hmem)
        simp at himp
  · rintro ⟨rfl, hbehind⟩
    exact splitLast?_append front hbehind

private theorem statedBare_iff {e : Endpoint} {cs : List Char} :
    e.StatedBare cs ↔ ofBare? cs = some e := by
  have hsmall : (10 : Nat) ≤ 16 := by decide
  have hbound : UInt16.size = 65536 := rfl
  constructor
  · rintro ⟨host, digits, n, rfl, hcolon, hhost, hdigits, hn, rfl⟩
    have hnumber : Numeral.unsigned? 10 UInt16.size digits = some n := by
      rw [Numeral.unsigned?_eq_some_iff hsmall]
      exact ⟨hdigits, by omega⟩
    have hempty : host.isEmpty = false := List.isEmpty_eq_false_iff.mpr hhost
    rw [ofBare?, splitLast?_append host hcolon]
    simp only [hempty, hnumber]
    rfl
  · intro h
    unfold ofBare? at h
    split at h
    · cases h
    · rename_i host digits hsplit
      obtain ⟨rfl, hcolon⟩ := splitLast?_eq_some_iff.mp hsplit
      split at h
      · cases h
      · rename_i hhost
        obtain ⟨n, hnumber, rfl⟩ := Option.map_eq_some_iff.mp h
        obtain ⟨hdigits, hn⟩ := (Numeral.unsigned?_eq_some_iff hsmall).mp hnumber
        refine ⟨host, digits, n, rfl, hcolon, ?_, hdigits, by omega, rfl⟩
        rintro rfl
        exact hhost rfl

theorem statedBy_iff {e : Endpoint} {s : String} : e.StatedBy s ↔ ofText? s = some e := by
  constructor
  · rintro ⟨core, bare, hcore, hbare, hstated⟩
    rw [ofText?, Blank.trims_iff.mp hcore, unschemed_iff.mp hbare, statedBare_iff.mp hstated]
  · intro h
    exact ⟨_, _, Blank.trims_trim _, unschemed_iff.mpr rfl, statedBare_iff.mpr h⟩

end Endpoint

namespace Settings

open PoolUplink.Text
open PoolUplink.Endpoint (schemes)

theorem endpoint_eq_ok_iff {s : String} {e : Endpoint} :
    endpoint s = .ok e ↔ Endpoint.ofText? s = some e := by
  unfold endpoint
  cases Endpoint.ofText? s with
  | none => simp
  | some other => simp

private theorem endpoint_of_none {s : String} (h : Endpoint.ofText? s = none) :
    endpoint s = .error (.invalidPool s) := by
  rw [endpoint, h]

private theorem ofText?_surround {before behind : String}
    (hbefore : ∀ c ∈ before.toList, Blank.isBlank c)
    (hbehind : ∀ c ∈ behind.toList, Blank.isBlank c) (s : String) :
    Endpoint.ofText? (before ++ s ++ behind) = Endpoint.ofText? s := by
  rw [Endpoint.ofText?, String.toList_append, String.toList_append,
    Blank.trim_surround hbefore hbehind, Endpoint.ofText?]

private theorem ofText?_behind_scheme {s : String} {scheme : List Char} (hscheme : scheme ∈ schemes)
    (trimmed : Blank.Trims s.toList s.toList) (named : s ≠ "")
    (bare : ∀ other ∈ schemes, ¬ other <+: s.toList) :
    Endpoint.ofText? (String.ofList scheme ++ s) = Endpoint.ofText? s := by
  have htrim : Blank.trim (scheme ++ s.toList) = scheme ++ s.toList := by
    apply Blank.trim_of_ends
    · simp only [schemes, List.mem_cons, List.not_mem_nil, or_false] at hscheme
      rcases hscheme with rfl | rfl
      · rintro _ ⟨⟩
        decide
      · rintro _ ⟨⟩
        decide
    · intro c hc
      obtain ⟨d, hd⟩ := Option.ne_none_iff_exists'.mp
        (mt List.getLast?_eq_none_iff.mp (mt String.toList_eq_nil_iff.mp named))
      rw [List.getLast?_append, hd, Option.some_or] at hc
      exact trimmed.last c (hd.trans hc)
  rw [Endpoint.ofText?, String.toList_append, String.toList_ofList, htrim,
    Endpoint.dropScheme_of_prefix hscheme, Endpoint.ofText?, Blank.trims_iff.mp trimmed,
    Endpoint.dropScheme_of_bare bare]

/-- A text is read as an address exactly if it states the address, and refused as it is if it
states none. Blanks around it never matter, and neither does a scheme in front of a text that has
none. -/
theorem address_grammar (s : String) :
    (∀ e, endpoint s = .ok e ↔ e.StatedBy s) ∧
      ((∀ e : Endpoint, ¬ e.StatedBy s) → endpoint s = .error (.invalidPool s)) ∧
      (∀ before behind : String, (∀ c ∈ before.toList, Blank.isBlank c) →
        (∀ c ∈ behind.toList, Blank.isBlank c) →
          ∀ e, endpoint (before ++ s ++ behind) = .ok e ↔ endpoint s = .ok e) ∧
      (Blank.Trims s.toList s.toList → (∀ scheme ∈ schemes, ¬ scheme <+: s.toList) →
        ∀ e, endpoint s = .ok e →
          ∀ scheme ∈ schemes, endpoint (String.ofList scheme ++ s) = .ok e) := by
  refine ⟨?_, ?_, ?_, ?_⟩
  · intro e
    rw [endpoint_eq_ok_iff, Endpoint.statedBy_iff]
  · intro unstated
    apply endpoint_of_none
    rw [Option.eq_none_iff_forall_not_mem]
    intro e he
    exact unstated e (Endpoint.statedBy_iff.mpr he)
  · intro before behind hbefore hbehind e
    rw [endpoint_eq_ok_iff, endpoint_eq_ok_iff, ofText?_surround hbefore hbehind]
  · intro trimmed bare e he scheme hscheme
    rw [endpoint_eq_ok_iff] at he ⊢
    have named : s ≠ "" := by
      rintro rfl
      cases he
    rw [ofText?_behind_scheme hscheme trimmed named bare, he]

theorem address_grammar_of_samples :
    endpoint "\u3000stratum+tcp://tcp://a b:+0080\t" = .ok ⟨"tcp://a b", 80⟩ ∧
      endpoint "a:65536 " = .error (.invalidPool "a:65536 ") ∧
      endpoint ("\r\n" ++ "[::1]:65535" ++ "\u00a0") = .ok ⟨"[::1]", 65535⟩ ∧
      endpoint (String.ofList "tcp://".toList ++ "[::1]:65535") = .ok ⟨"[::1]", 65535⟩ := by
  have hbare : endpoint "[::1]:65535" = .ok ⟨"[::1]", 65535⟩ := by decide +kernel
  obtain ⟨-, -, hsurround, hscheme⟩ := address_grammar "[::1]:65535"
  refine ⟨?_, ?_, ?_, ?_⟩
  · apply ((address_grammar _).1 _).mpr
    refine ⟨"stratum+tcp://tcp://a b:+0080".toList, "tcp://a b:+0080".toList, ?_, ?_, ?_⟩
    · rw [Blank.trims_iff]
      decide +kernel
    · exact .scheme _ List.mem_cons_self
    · refine ⟨"tcp://a b".toList, "+0080".toList, 80, by decide, by decide, by decide, ?_,
        by decide, by decide⟩
      exact ⟨['+'], ['0', '0', '8', '0'], [0, 0, 8, 0], by decide, by decide, by decide,
        .cons (by decide) (.cons (by decide) (.cons (by decide) (.cons (by decide) .nil))),
        by decide⟩
  · apply (address_grammar _).2.1
    intro e he
    have hnone : Endpoint.ofText? "a:65536 " = none := by decide +kernel
    rw [Endpoint.statedBy_iff, hnone] at he
    cases he
  · have hbefore : ∀ c ∈ "\r\n".toList, Blank.isBlank c = true :=
      List.all_eq_true.mp (by decide)
    have hbehind : ∀ c ∈ "\u00a0".toList, Blank.isBlank c = true :=
      List.all_eq_true.mp (by decide)
    exact (hsurround _ _ hbefore hbehind _).mpr hbare
  · refine hscheme ?_ (by decide) _ hbare _ (by decide)
    rw [Blank.trims_iff]
    decide +kernel

end Settings

end PoolUplink
