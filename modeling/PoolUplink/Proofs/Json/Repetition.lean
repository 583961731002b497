import PoolUplink.Proofs.Json.Records

/-!
# Repetitions are refused

A reader refuses a text if nothing behind it makes a difference any more. A record refuses a text
from where a field is repeated, in it or in one of its values, and so does a list of records.
-/

set_option autoImplicit false
set_option relaxedAutoImplicit false

namespace PoolUplink.Json

open PoolUplink.Json.Ascii
open Grammar (Begun Schema)

variable {α β : Type}

/-- A reader refuses whatever begins with a text. -/
def Refuses (r : Reader α) (cs : List Char) : Prop :=
  Starts cs ∧ ∀ ⦃gap : List Char⦄ (rest : List UInt8), Gap gap →
    r (utf8 gap ++ (utf8 cs ++ rest)) = .error .misshapen

namespace Reader

variable {input tail : List UInt8} {b : UInt8} {fault : Fault}

private theorem onByte_error
    {f : (b : UInt8) → (rest : List UInt8) → Except Fault (Step α (b :: rest))}
    (hspace : skipSpace input = b :: tail) (h : f b tail = .error fault) :
    onByte f input = .error fault := by
  rw [onByte_eq hspace, h]

private theorem items_error {item : Reader α} (hspace : skipSpace input = b :: tail)
    (hb : b ≠ closeBracket) (h : itemsOn item [] input = .error fault) :
    items item input = .error fault := by
  unfold items
  split
  · rename_i hn
    rw [hspace] at hn
    cases hn
  · rename_i hc
    rw [hspace] at hc
    obtain ⟨rfl, rfl⟩ := List.cons.inj hc
    rw [if_neg hb]
    split
    · rename_i he
      rw [h] at he
      cases he
      rfl
    · rename_i ho
      rw [h] at ho
      cases ho

private theorem members_error {member : α → String → Reader α} {start : α}
    (hspace : skipSpace input = b :: tail) (hb : b ≠ closeBrace)
    (h : membersOn member start input = .error fault) :
    members member start input = .error fault := by
  unfold members
  split
  · rename_i hn
    rw [hspace] at hn
    cases hn
  · rename_i hc
    rw [hspace] at hc
    obtain ⟨rfl, rfl⟩ := List.cons.inj hc
    rw [if_neg hb]
    split
    · rename_i he
      rw [h] at he
      cases he
      rfl
    · rename_i ho
      rw [h] at ho
      cases ho

end Reader

namespace Refuses

variable {r : Reader α} {cs : List Char}

theorem filterMap {f : α → Option β} (h : Refuses r cs) : Refuses (r.filterMap f) cs := by
  refine ⟨h.1, ?_⟩
  intro gap rest hgap
  rw [Reader.filterMap, h.2 rest hgap]

theorem map {f : α → β} (h : Refuses r cs) : Refuses (r.map f) cs := by
  refine ⟨h.1, ?_⟩
  intro gap rest hgap
  rw [Reader.map, h.2 rest hgap]

theorem run (h : Refuses r cs) {before : List Char} (hbefore : Gap before) (behind : List Char) :
    r.run (utf8 (before ++ cs ++ behind)) = .error .misshapen := by
  rw [utf8_append, utf8_append, List.append_assoc, Reader.run, h.2 _ hbefore]

end Refuses

section Lists

variable {Piece : α → List Char → Prop} {item : Reader α}

private theorem begins_of_begun {as : List α} {front gap cs : List Char} (h : Begun Piece as front)
    (starts : ∀ a cs, Piece a cs → Starts cs) (hgap : Gap gap) (hcs : Starts cs) :
    Begins (front ++ gap ++ cs) := by
  cases h with
  | nil => exact ⟨gap, cs, rfl, hgap, hcs⟩
  | @more a as before piece behind following hbefore hpiece =>
    exact ⟨before, piece ++ (behind ++ ',' :: following ++ gap ++ cs), by simp, hbefore,
      (starts _ _ hpiece).append _⟩

private theorem itemsOn_refused {as : List α} {front gap cs : List Char} (h : Begun Piece as front)
    (accepted : ∀ a cs, Piece a cs → Accepts item cs a) (hgap : Gap gap)
    (refused : Refuses item cs) (before : List α) (rest : List UInt8) :
    Reader.itemsOn item before (utf8 front ++ (utf8 gap ++ (utf8 cs ++ rest))) =
      .error .misshapen := by
  induction h generalizing before with
  | nil => rw [utf8_nil, List.nil_append, Reader.itemsOn, refused.2 rest hgap]
  | more hbefore hpiece hbehind _ ih =>
    rw [utf8_more, Takes.itemsOn_step before
      ((accepted _ _ hpiece).token hbefore hbehind (by decide) _)
      (skipSpace_gap_cons hbehind (by decide) _), if_neg (by decide), if_pos rfl, ih]

theorem refuses_list {as : List α} {front gap cs : List Char} (h : Begun Piece as front)
    (accepted : ∀ a cs, Piece a cs → Accepts item cs a) (hgap : Gap gap)
    (refused : Refuses item cs) : Refuses (Shape.list item) ('[' :: front ++ gap ++ cs) := by
  refine ⟨starts_cons (by decide) (by decide) _, ?_⟩
  intro outer rest houter
  have hitems : Reader.items item (utf8 (front ++ gap ++ cs) ++ rest) = .error .misshapen := by
    obtain ⟨b, tail, hspace, hb, -⟩ :=
      (begins_of_begun h (fun a cs hpiece => (accepted a cs hpiece).1) hgap refused.1).skipSpace
        rest
    refine Reader.items_error hspace hb ?_
    simp only [utf8_append, List.append_assoc]
    exact itemsOn_refused h accepted hgap refused [] rest
  have hbytes : utf8 ('[' :: front ++ gap ++ cs) = openBracket :: utf8 (front ++ gap ++ cs) := rfl
  rw [hbytes, List.cons_append]
  refine Reader.onByte_error (skipSpace_gap_cons houter (by decide) _) ?_
  rw [if_pos rfl, hitems]

end Lists

namespace Shape.Fits

variable {σ φ : Type} {known : List (Member σ)} {schema : Schema φ} {put : σ → φ → σ}

private theorem seen_foldl (fits : Fits known schema put) {m : Member σ} (hm : m ∈ known)
    {fields : List φ} {state : σ}
    (h : (∃ f ∈ fields, m.name = schema.name f) ∨ m.seen state = true) :
    m.seen (fields.foldl put state) = true := by
  induction fields generalizing state with
  | nil => simpa using h
  | cons g fields ih =>
    apply ih
    rw [fits.seen m hm, Bool.or_eq_true, beq_iff_eq]
    rcases h with ⟨f, hf, hname⟩ | hseen
    · rcases List.mem_cons.mp hf with rfl | hf
      · exact .inr (.inl hname)
      · exact .inl ⟨f, hf, hname⟩
    · exact .inr (.inr hseen)

private theorem membersOn_error {state : σ} {name : String} {input tail : List UInt8}
    {fault : Fault} (hname : Takes (Reader.name input) name tail)
    (hmember : member known state name tail = .error fault) :
    Reader.membersOn (member known) state input = .error fault := by
  obtain ⟨_, hname⟩ := hname
  rw [Reader.membersOn, hname]
  dsimp only
  rw [hmember]

private theorem member_seen {m : Member σ} {name : String}
    (hfind : known.find? (·.name == name) = some m) {state : σ} (hseen : m.seen state = true)
    (input : List UInt8) : member known state name input = .error .misshapen := by
  rw [member, hfind]
  simp only [hseen, if_true]
  rfl

private theorem membersOn_of_begun (fits : Fits known schema put) {parts : List (Option φ)}
    {front : List Char} (h : Begun schema.Part parts front) (state : σ) (input : List UInt8) :
    Reader.membersOn (member known) state (utf8 front ++ input) = .error .misshapen ∨
      Reader.membersOn (member known) state (utf8 front ++ input) =
        Reader.membersOn (member known) (parts.reduceOption.foldl put state) input := by
  induction h generalizing state with
  | nil => exact .inr rfl
  | @more part parts before cs behind following hbefore hpart hbehind _ ih =>
    rw [utf8_more]
    -- a member that has been read before is the repetition; any other leaves its field behind
    by_cases fresh : Fresh known schema part.toList state
    · obtain ⟨name, tail, hname, hmember⟩ := fits.takes_part hpart fresh hbefore hbehind
        (b := comma) (by decide) (utf8 following ++ input)
      rw [Takes.membersOn_step hname hmember (skipSpace_gap_cons hbehind (by decide) _),
        if_neg (by decide), if_pos rfl, reduceOption_cons, List.foldl_append]
      exact ih _
    · left
      cases hpart with
      | unknown => exact absurd (fun _ hf => nomatch hf) fresh
      | @field f _ hmember =>
        obtain ⟨m, hm, hname, hfind⟩ := fits.exists_find (fits.named f)
        have hseen : m.seen state = true := by
          by_contra hseen
          apply fresh
          intro g hg other hother heq
          obtain rfl : g = f := by simpa using hg
          rw [fits.unique hother hm (heq.trans hname.symm)]
          exact Bool.eq_false_iff.mpr hseen
        obtain ⟨tail, htail, -⟩ := takes_member hmember
          (fun value hvalue => fits.accepts hm hname hvalue state) hbefore hbehind
          (b := comma) (by decide) (utf8 following ++ input)
        exact membersOn_error htail (member_seen hfind hseen tail)

private theorem member_inside (fits : Fits known schema put) {Inside : String → List Char → Prop}
    (inside : ∀ m ∈ known, ∀ state value, Inside m.name value → Refuses (m.read state) value)
    {name : String} (hname : name ∈ schema.names) {gap ahead value : List Char} (hgap : Gap gap)
    (hahead : Gap ahead) (hvalue : Inside name value) (state : σ) (rest : List UInt8) :
    member known state name (utf8 gap ++ colon :: (utf8 ahead ++ (utf8 value ++ rest))) =
      .error .misshapen := by
  obtain ⟨m, hm, rfl, hfind⟩ := fits.exists_find hname
  by_cases hseen : m.seen state = true
  · exact member_seen hfind hseen _
  · obtain ⟨_, hcolon⟩ := pastColon_of_skipSpace (skipSpace_gap_cons hgap (by decide)
      (utf8 ahead ++ (utf8 value ++ rest)))
    have hread := (inside m hm state value hvalue).2 rest hahead
    rw [member, hfind]
    dsimp only
    rw [if_neg hseen, Reader.afterColon, hcolon]
    dsimp only
    rw [hread]

private theorem exists_of_begun (fits : Fits known schema put) {Inside : String → List Char → Prop}
    (inside : ∀ m ∈ known, ∀ state value, Inside m.name value → Refuses (m.read state) value)
    {fields : List φ} {front gap cs : List Char} (h : Begun schema.Written fields front)
    {name : String} (hgap : Gap gap) (hcs : Inside name cs) {members : List (Member σ)}
    (hmembers : members ⊆ known)
    (places : fields.map schema.name ++ [name] <+: members.map Member.name) (state : σ)
    (rest : List UInt8) :
    ∃ m more, members = m :: more ∧
      (m.read state (utf8 front ++ (utf8 gap ++ (utf8 cs ++ rest))) = .error .misshapen ∨
        ∃ between tail,
          Takes (m.read state (utf8 front ++ (utf8 gap ++ (utf8 cs ++ rest)))) between tail ∧
            fieldsOn between tail (more.map Member.read) = .error .misshapen) := by
  induction h generalizing members state with
  | nil =>
    cases members with
    | nil => exact absurd (List.prefix_nil.mp places) (List.cons_ne_nil _ _)
    | cons m more =>
      obtain ⟨rfl, -⟩ := List.cons_prefix_cons.mp places
      exact ⟨m, more, rfl, .inl ((inside m (hmembers List.mem_cons_self) state cs hcs).2 rest hgap)⟩
  | @more f fields before piece behind following hbefore hwritten hbehind _ ih =>
    cases members with
    | nil => exact absurd (List.prefix_nil.mp places) (List.cons_ne_nil _ _)
    | cons m more =>
      obtain ⟨hname, places⟩ := List.cons_prefix_cons.mp places
      obtain ⟨hm, hmore⟩ := List.cons_subset.mp hmembers
      have hread := fits.accepts hm hname.symm hwritten state
      have htakes := hread.token hbefore hbehind (b := comma) (by decide)
        (utf8 following ++ (utf8 gap ++ (utf8 cs ++ rest)))
      obtain ⟨next, others, rfl, hnext⟩ := ih hmore places (put state f)
      rw [utf8_more]
      refine ⟨m, next :: others, rfl, .inr ⟨_, _, htakes, ?_⟩⟩
      rw [List.map_cons, fieldsOn_cons (skipSpace_gap_cons hbehind (by decide) _),
        if_neg (by decide), if_pos rfl]
      rcases hnext with hnext | ⟨between, tail, ⟨_, hnext⟩, hothers⟩
      · rw [hnext]
      · rw [hnext]
        dsimp only
        rw [hothers]

private theorem refuses_braces {start : σ} {inside : List Char} (hbegins : Begins inside)
    (h : ∀ rest, Reader.membersOn (member known) start (utf8 inside ++ rest) = .error .misshapen) :
    Refuses (record known start) ('{' :: inside) := by
  refine ⟨starts_cons (by decide) (by decide) _, ?_⟩
  intro gap rest hgap
  obtain ⟨b, tail, hspace, -, hb⟩ := hbegins.skipSpace rest
  rw [utf8_openBrace, List.cons_append]
  refine Reader.onByte_error (skipSpace_gap_cons hgap (by decide) _) ?_
  rw [if_neg (by decide), if_pos rfl]
  dsimp only
  rw [Reader.members_error hspace hb (h rest)]

private theorem refuses_brackets (fits : Fits known schema put) {Inside : String → List Char → Prop}
    (inside : ∀ m ∈ known, ∀ state value, Inside m.name value → Refuses (m.read state) value)
    {fields : List φ} {front gap cs : List Char} (h : Begun schema.Written fields front)
    {name : String} (places : fields.map schema.name ++ [name] <+: schema.names) (hgap : Gap gap)
    (hcs : Inside name cs) (start : σ) :
    Refuses (record known start) ('[' :: front ++ gap ++ cs) := by
  refine ⟨starts_cons (by decide) (by decide) _, ?_⟩
  intro outer rest houter
  have hbytes : utf8 ('[' :: front ++ gap ++ cs) ++ rest =
      openBracket :: (utf8 front ++ (utf8 gap ++ (utf8 cs ++ rest))) := by
    simp
  obtain ⟨m, more, hknown, hread⟩ := fits.exists_of_begun inside h hgap hcs
    (List.Subset.refl known) (fits.names ▸ places) start rest
  have hstarts : Starts cs := by
    have hname : name ∈ schema.names := places.subset (by simp)
    obtain ⟨m, hm, rfl, -⟩ := fits.exists_find hname
    exact (inside m hm start cs hcs).1
  obtain ⟨b, tail, hspace, hb, -⟩ := (begins_of_begun h
    (fun _ _ => fits.starts_of_written start) hgap hstarts).skipSpace rest
  have hfields : Shape.fields start (known.map Member.read)
      (utf8 front ++ (utf8 gap ++ (utf8 cs ++ rest))) = .error .misshapen := by
    rw [utf8_append, utf8_append, List.append_assoc, List.append_assoc] at hspace
    rw [hknown, List.map_cons, fields_cons hspace, if_neg hb]
    rcases hread with hread | ⟨between, tail, ⟨_, hread⟩, hothers⟩
    · rw [hread]
    · rw [hread]
      dsimp only
      rw [hothers]
  rw [hbytes]
  refine Reader.onByte_error (skipSpace_gap_cons houter (by decide) _) ?_
  rw [if_pos rfl]
  dsimp only
  rw [hfields]

/-- A record refuses a text from where a field is repeated in it or in one of its values. -/
theorem refuses_record (fits : Fits known schema put) {Inside : String → List Char → Prop}
    (inside : ∀ m ∈ known, ∀ state value, Inside m.name value → Refuses (m.read state) value)
    {cs : List Char} (h : schema.Repeats Inside cs) (start : σ) :
    Refuses (record known start) cs := by
  cases h with
  | @again parts f front gap literal hbegun hf hgap hname =>
    obtain ⟨m, hm, hm', hfind⟩ := fits.exists_find (fits.named f)
    rw [List.cons_append, List.cons_append]
    refine refuses_braces
      (begins_of_begun hbegun (fun _ _ => starts_of_part) hgap hname.starts) ?_
    intro rest
    rw [utf8_append, utf8_append, List.append_assoc, List.append_assoc]
    rcases fits.membersOn_of_begun hbegun start (utf8 gap ++ (utf8 literal ++ rest)) with h | h
    · exact h
    · have hseen : m.seen (parts.reduceOption.foldl put start) = true :=
        fits.seen_foldl hm (.inl ⟨f, hf, hm'⟩)
      exact h.trans (membersOn_error (hname.takes_name hgap rest) (member_seen hfind hseen rest))
  | @inMember parts name front gap cs hbegun hname hgap hmember =>
    have hstarts : Starts cs := starts_of_member hmember
    obtain @⟨literal, between, ahead, value, hliteral, hbetween, hahead, hvalue⟩ := hmember
    rw [List.cons_append, List.cons_append]
    refine refuses_braces (begins_of_begun hbegun (fun _ _ => starts_of_part) hgap hstarts) ?_
    intro rest
    have hbytes : utf8 (front ++ gap ++ (literal ++ between ++ ':' :: ahead ++ value)) ++ rest =
        utf8 front ++ (utf8 gap ++ (utf8 literal ++
          (utf8 between ++ colon :: (utf8 ahead ++ (utf8 value ++ rest))))) := by
      simp
    rw [hbytes]
    rcases fits.membersOn_of_begun hbegun start (utf8 gap ++ (utf8 literal ++
      (utf8 between ++ colon :: (utf8 ahead ++ (utf8 value ++ rest))))) with h | h
    · exact h
    · exact h.trans (membersOn_error (hliteral.takes_name hgap _)
        (fits.member_inside inside hname hbetween hahead hvalue _ rest))
  | @inField fields name front gap cs hbegun places hgap hcs =>
    exact fits.refuses_brackets inside hbegun places hgap hcs start

end Shape.Fits

end PoolUplink.Json
