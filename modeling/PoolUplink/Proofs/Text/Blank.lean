import Mathlib.Data.List.TakeWhile
import PoolUplink.Text.Blank

/-!
# Blanks around a text

Blanks before and behind a text are trimmed off whatever the text is, and nothing else is: a text
that neither starts nor ends in a blank is kept. So the trimmed text is the only one of that kind
between blanks.
-/

set_option autoImplicit false
set_option relaxedAutoImplicit false

namespace PoolUplink.Text.Blank

private theorem trimStart_of_all {cs : List Char} (h : ∀ c ∈ cs, isBlank c = true) :
    trimStart cs = [] :=
  List.dropWhile_eq_nil_iff.mpr h

private theorem trimEnd_append_of_all {behind : List Char} (h : ∀ c ∈ behind, isBlank c = true)
    (cs : List Char) : trimEnd (cs ++ behind) = trimEnd cs := by
  have hrev : ∀ c ∈ behind.reverse, isBlank c = true :=
    fun c hc => h c (List.mem_reverse.mp hc)
  rw [trimEnd, List.reverse_append, List.dropWhile_append_of_pos hrev, trimEnd]

theorem trim_surround {before behind : List Char} (hbefore : ∀ c ∈ before, isBlank c = true)
    (hbehind : ∀ c ∈ behind, isBlank c = true) (cs : List Char) :
    trim (before ++ cs ++ behind) = trim cs := by
  have hstart : trimStart (before ++ cs ++ behind) = trimStart (cs ++ behind) := by
    rw [trimStart, List.append_assoc, List.dropWhile_append_of_pos hbefore, trimStart]
  rw [trim, hstart, trimStart, List.dropWhile_append]
  split
  · rename_i hblank
    have hcs : trimStart cs = [] := List.isEmpty_iff.mp hblank
    have hrest : behind.dropWhile isBlank = [] := trimStart_of_all hbehind
    rw [trim, hcs, hrest]
  · exact trimEnd_append_of_all hbehind _

theorem trim_of_ends {cs : List Char} (first : ∀ c ∈ cs.head?, isBlank c = false)
    (last : ∀ c ∈ cs.getLast?, isBlank c = false) : trim cs = cs := by
  have keep : ∀ ds : List Char, (∀ c ∈ ds.head?, isBlank c = false) →
      ds.dropWhile isBlank = ds := by
    intro ds h
    cases ds with
    | nil => rfl
    | cons c ds => exact List.dropWhile_cons_of_neg (by simp [h c rfl])
  have hlast : ∀ c ∈ cs.reverse.head?, isBlank c = false := by
    rwa [List.head?_reverse]
  rw [trim, trimStart, keep cs first, trimEnd, keep cs.reverse hlast, List.reverse_reverse]

theorem trim_of_none {cs : List Char} (h : ∀ c ∈ cs, isBlank c = false) : trim cs = cs :=
  trim_of_ends (fun c hc => h c (List.mem_of_mem_head? hc))
    fun c hc => h c (List.mem_of_mem_getLast? hc)

/-- A text stands between blanks, and neither starts nor ends in one. -/
structure Trims (cs core : List Char) : Prop where
  between : ∃ before behind : List Char, (∀ c ∈ before, isBlank c = true) ∧
    (∀ c ∈ behind, isBlank c = true) ∧ cs = before ++ core ++ behind
  first : ∀ c ∈ core.head?, isBlank c = false
  last : ∀ c ∈ core.getLast?, isBlank c = false

private theorem head?_trimStart {cs : List Char} {c : Char} (h : c ∈ (trimStart cs).head?) :
    isBlank c = false := by
  have hfirst := List.head?_dropWhile_not isBlank cs
  rw [trimStart] at h
  rw [Option.mem_def.mp h] at hfirst
  exact hfirst

private theorem getLast?_trimEnd {cs : List Char} {c : Char} (h : c ∈ (trimEnd cs).getLast?) :
    isBlank c = false := by
  rw [trimEnd, List.getLast?_reverse] at h
  exact head?_trimStart h

private theorem exists_trimEnd (cs : List Char) :
    ∃ behind : List Char, (∀ c ∈ behind, isBlank c = true) ∧ cs = trimEnd cs ++ behind := by
  refine ⟨(cs.reverse.takeWhile isBlank).reverse, ?_, ?_⟩
  · intro c hc
    exact List.mem_takeWhile_imp (List.mem_reverse.mp hc)
  · rw [trimEnd, ← List.reverse_append, List.takeWhile_append_dropWhile, List.reverse_reverse]

theorem trims_trim (cs : List Char) : Trims cs (trim cs) := by
  obtain ⟨behind, hbehind, hend⟩ := exists_trimEnd (trimStart cs)
  refine ⟨⟨cs.takeWhile isBlank, behind, ?_, hbehind, ?_⟩, ?_, ?_⟩
  · intro c hc
    exact List.mem_takeWhile_imp hc
  · rw [List.append_assoc, trim, ← hend, trimStart, List.takeWhile_append_dropWhile]
  · -- what is left starts as the text did before its end was trimmed
    intro c hc
    have hc : (trimEnd (trimStart cs)).head? = some c := hc
    have hfirst : c ∈ (trimStart cs).head? := by
      rw [hend, List.head?_append, hc]
      rfl
    exact head?_trimStart hfirst
  · intro c hc
    exact getLast?_trimEnd hc

theorem trims_iff {cs core : List Char} : Trims cs core ↔ trim cs = core := by
  constructor
  · rintro ⟨⟨before, behind, hbefore, hbehind, rfl⟩, hfirst, hlast⟩
    rw [trim_surround hbefore hbehind, trim_of_ends hfirst hlast]
  · rintro rfl
    exact trims_trim cs

theorem trim_eq_nil_iff {cs : List Char} : trim cs = [] ↔ ∀ c ∈ cs, isBlank c = true := by
  rw [← trims_iff]
  constructor
  · rintro ⟨⟨before, behind, hbefore, hbehind, rfl⟩, -, -⟩
    rw [List.append_nil, List.forall_mem_append]
    exact ⟨hbefore, hbehind⟩
  · intro hblank
    exact ⟨⟨cs, [], hblank, List.forall_mem_nil _, by simp⟩, nofun, nofun⟩

end PoolUplink.Text.Blank
