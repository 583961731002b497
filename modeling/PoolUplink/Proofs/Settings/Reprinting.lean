import PoolUplink.Proofs.Settings.AddressGrammar

/-!
# Printed addresses

The text of an address that was read is the host and the number, without anything in front. It is
read as the same address unless the host starts with what reading takes off, which only a host
from behind a scheme can do: then a second scheme or a blank is lost.
-/

set_option autoImplicit false
set_option relaxedAutoImplicit false

namespace PoolUplink

namespace Endpoint

open PoolUplink.Text

private theorem StatedBare.named {e : Endpoint} {cs : List Char} (h : e.StatedBare cs) :
    e.host ≠ "" := by
  obtain ⟨host, digits, n, -, -, hhost, -, -, rfl⟩ := h
  intro hempty
  have hnil : host = [] := by simpa using congrArg String.toList hempty
  exact hhost hnil

private theorem StatedBare.untouched_iff {e : Endpoint} {cs : List Char} (h : e.StatedBare cs) :
    Untouched cs ↔ Untouched e.host.toList := by
  obtain ⟨host, digits, n, rfl, -, hhost, hdigits, -, rfl⟩ := h
  rw [String.toList_ofList]
  exact untouched_append hhost (hdigits.not_mem (by decide) (by decide) (by decide))

/-- Where the text of an address states it, nothing is in front: both are split at the last
colon. -/
theorem nothing_in_front {e : Endpoint} {front bare behind : List Char} (h : e.StatedBare bare)
    (hbehind : ∀ c ∈ behind, Blank.isBlank c = true) (hchars : e.chars = front ++ bare ++ behind) :
    front = [] := by
  obtain ⟨host, digits, n, rfl, hcolon, -, -, -, rfl⟩ := h
  have hnocolon : ':' ∉ digits ++ behind := by
    intro hmem
    rcases List.mem_append.mp hmem with hmem | hmem
    · exact hcolon hmem
    · exact absurd (hbehind _ hmem) (by decide)
  have hown := splitLast?_append host (Numeral.not_mem_decimal (by decide) n.toUInt16.toNat)
  have hread : splitLast? (front ++ host ++ ':' :: (digits ++ behind)) =
      some (front ++ host, digits ++ behind) := splitLast?_append _ hnocolon
  have hsame : host ++ ':' :: Numeral.decimal n.toUInt16.toNat =
      front ++ host ++ ':' :: (digits ++ behind) := by
    simpa [chars] using hchars
  rw [← hsame, hown, Option.some.injEq, Prod.mk.injEq] at hread
  exact List.append_left_eq_self.mp hread.1.symm

private theorem statedBy_text_iff {e : Endpoint} (named : e.host ≠ "") :
    e.StatedBy e.text ↔ Untouched e.host.toList := by
  have htext : e.text.toList = e.chars := String.toList_ofList
  constructor
  · rintro ⟨core, bare, hcore, hbare, hstated⟩
    obtain ⟨before, behind, -, hbehind, hbetween⟩ := hcore.between
    rw [htext] at hbetween
    rw [← hstated.untouched_iff]
    cases hbare with
    | @scheme scheme _ hscheme =>
      have hfront : before ++ scheme = [] :=
        nothing_in_front hstated hbehind (by simpa using hbetween)
      obtain ⟨-, rfl⟩ := List.append_eq_nil_iff.mp hfront
      exact absurd hscheme (by decide)
    | bare hbare => exact ⟨hcore.first, hbare⟩
  · intro huntouched
    have hread : ofBare? (dropScheme (Blank.trim ([] ++ e.chars))) = some e :=
      read_chars named huntouched List.mem_cons_self
    rwa [List.nil_append, ← htext, ← ofText?, ← statedBy_iff] at hread

end Endpoint

namespace Settings

open PoolUplink.Text
open PoolUplink.Endpoint (schemes Untouched)

/-- An address that was read is read again from its text exactly if no blank and no scheme stands
behind the scheme that was taken off. In a text without a scheme there is none. -/
theorem reread_iff {s : String} {e : Endpoint} (h : endpoint s = .ok e) :
    endpoint e.text = .ok e ↔
      ∀ scheme ∈ schemes, ∀ rest, Blank.Trims s.toList (scheme ++ rest) → Untouched rest := by
  rw [endpoint_eq_ok_iff, ← Endpoint.statedBy_iff] at h ⊢
  obtain ⟨core, bare, hcore, hbare, hstated⟩ := h
  rw [Endpoint.statedBy_text_iff hstated.named, ← hstated.untouched_iff]
  have hunique {other : List Char} (hother : Blank.Trims s.toList other) : other = core := by
    rw [← Blank.trims_iff.mp hother, Blank.trims_iff.mp hcore]
  constructor
  · intro huntouched scheme hscheme rest hrest
    have hcut := Endpoint.dropScheme_of_prefix hscheme rest
    rw [hunique hrest, Endpoint.unschemed_iff.mp hbare] at hcut
    exact hcut ▸ huntouched
  · intro hbehind
    cases hbare with
    | scheme _ hscheme => exact hbehind _ hscheme _ hcore
    | bare hbare => exact ⟨hcore.first, hbare⟩

theorem reread_of_samples :
    endpoint (Endpoint.text ⟨"a tcp://b", 7⟩) = .ok ⟨"a tcp://b", 7⟩ ∧
      ¬ ∀ scheme ∈ schemes, ∀ rest,
        Blank.Trims "tcp:// b:7".toList (scheme ++ rest) → Untouched rest := by
  have hread : endpoint "\ttcp://a tcp://b:+07" = .ok ⟨"a tcp://b", 7⟩ := by decide +kernel
  have hblank : endpoint "tcp:// b:7" = .ok ⟨" b", 7⟩ := by decide +kernel
  have hlost : endpoint (Endpoint.text ⟨" b", 7⟩) = .ok ⟨"b", 7⟩ := by decide +kernel
  constructor
  · rw [reread_iff hread]
    intro scheme hscheme rest hrest
    have hcore : Blank.trim "\ttcp://a tcp://b:+07".toList = "tcp://a tcp://b:+07".toList := by
      decide +kernel
    rw [Blank.trims_iff, hcore] at hrest
    simp only [schemes, List.mem_cons, List.not_mem_nil, or_false] at hscheme
    rcases hscheme with rfl | rfl
    · cases hrest
    · cases hrest
      refine ⟨?_, by decide⟩
      rintro c ⟨⟩
      decide
  · rw [← reread_iff hblank, hlost]
    decide

theorem reread_loses_second_scheme :
    endpoint "tcp://tcp://a:1" = .ok ⟨"tcp://a", 1⟩ ∧
      endpoint (Endpoint.text ⟨"tcp://a", 1⟩) = .ok ⟨"a", 1⟩ ∧
      ¬ ∀ (s : String) (e : Endpoint), endpoint s = .ok e → endpoint e.text = .ok e := by
  have hread : endpoint "tcp://tcp://a:1" = .ok ⟨"tcp://a", 1⟩ := by decide +kernel
  have hreread : endpoint (Endpoint.text ⟨"tcp://a", 1⟩) = .ok ⟨"a", 1⟩ := by decide +kernel
  refine ⟨hread, hreread, ?_⟩
  intro stable
  have hsame := stable _ _ hread
  rw [hreread] at hsame
  exact absurd hsame (by decide)

end Settings

end PoolUplink
