import PoolUplink.Proofs.Json.Accepting

/-!
# Records by name and by position

A record that fits a schema accepts every text that states its fields, and its state is then filled
with each of them: from an object in any order, whatever other members there are, and from an array
in the order of the schema.
-/

set_option autoImplicit false
set_option relaxedAutoImplicit false

namespace PoolUplink.Json.Shape

open PoolUplink.Json.Ascii
open Grammar (Commas Enclosed Schema)

variable {σ φ : Type}

theorem foldl_perm {put : σ → φ → σ} {name : φ → String}
    (comm : ∀ f g, name f ≠ name g → ∀ state, put (put state f) g = put (put state g) f)
    {fields other : List φ} (h : fields.Perm other) (distinct : (fields.map name).Nodup)
    (state : σ) : fields.foldl put state = other.foldl put state := by
  refine h.foldl_eq' ?_ state
  intro f hf g hg state
  by_cases heq : name f = name g
  · obtain rfl := List.inj_on_of_nodup_map distinct hf hg heq
    rfl
  · exact comm f g heq state

/-- The members of a record are those of a schema, and each field fills a part of its own. -/
structure Fits (known : List (Member σ)) (schema : Schema φ) (put : σ → φ → σ) : Prop where
  names : known.map Member.name = schema.names
  distinct : schema.names.Nodup
  reads : ∀ f, ∃ m ∈ known, m.name = schema.name f ∧
    ∀ state cs, schema.Written f cs → Accepts (m.read state) cs (put state f)
  seen : ∀ m ∈ known, ∀ f state, m.seen (put state f) = (m.name == schema.name f || m.seen state)
  comm : ∀ f g, schema.name f ≠ schema.name g → ∀ state, put (put state f) g = put (put state g) f

namespace Fits

variable {known : List (Member σ)} {schema : Schema φ} {put : σ → φ → σ}

theorem exists_find (fits : Fits known schema put) {name : String} (h : name ∈ schema.names) :
    ∃ m ∈ known, m.name = name ∧ known.find? (·.name == name) = some m := by
  rw [← fits.names, List.mem_map] at h
  obtain ⟨m, hm, rfl⟩ := h
  have hsome : (known.find? (·.name == m.name)).isSome := by
    rw [List.find?_isSome]
    exact ⟨m, hm, beq_self_eq_true _⟩
  obtain ⟨m', hfind⟩ := Option.isSome_iff_exists.mp hsome
  have hname : m'.name = m.name := by simpa using List.find?_some hfind
  exact ⟨m', List.mem_of_find?_eq_some hfind, hname, hfind⟩

theorem unique (fits : Fits known schema put) {m other : Member σ} (hm : m ∈ known)
    (hother : other ∈ known) (h : m.name = other.name) : m = other :=
  List.inj_on_of_nodup_map (fits.names ▸ fits.distinct) hm hother h

theorem named (fits : Fits known schema put) (f : φ) : schema.name f ∈ schema.names := by
  obtain ⟨m, hm, hname, -⟩ := fits.reads f
  rw [← fits.names, ← hname]
  exact List.mem_map_of_mem hm

theorem accepts (fits : Fits known schema put) {m : Member σ} (hm : m ∈ known) {f : φ}
    (hname : m.name = schema.name f) {cs : List Char} (h : schema.Written f cs) (state : σ) :
    Accepts (m.read state) cs (put state f) := by
  obtain ⟨other, hother, heq, hread⟩ := fits.reads f
  rw [fits.unique hm hother (hname.trans heq.symm)]
  exact hread state cs h

private theorem find_none (fits : Fits known schema put) {name : String} (h : name ∉ schema.names) :
    known.find? (·.name == name) = none := by
  rw [List.find?_eq_none]
  intro m hm heq
  exact h (fits.names ▸ eq_of_beq heq ▸ List.mem_map_of_mem hm)

theorem starts_of_written (fits : Fits known schema put) (state : σ) {f : φ} {cs : List Char}
    (h : schema.Written f cs) : Starts cs := by
  obtain ⟨m, -, -, hread⟩ := fits.reads f
  exact (hread state cs h).1

/-- The members of the fields have not been read. -/
def Fresh (known : List (Member σ)) (schema : Schema φ) (fields : List φ) (state : σ) : Prop :=
  ∀ f ∈ fields, ∀ m ∈ known, m.name = schema.name f → m.seen state = false

private theorem fresh_put (fits : Fits known schema put) {f : φ} {fields : List φ} {state : σ}
    (fresh : Fresh known schema (f :: fields) state)
    (distinct : ((f :: fields).map schema.name).Nodup) :
    Fresh known schema fields (put state f) := by
  intro g hg m hm hname
  have hne : m.name ≠ schema.name f := by
    intro heq
    rw [List.map_cons, List.nodup_cons] at distinct
    exact distinct.1 (heq ▸ hname ▸ List.mem_map_of_mem hg)
  rw [fits.seen m hm, fresh g (List.mem_cons_of_mem f hg) m hm hname, Bool.or_false]
  exact beq_false_of_ne hne

section Object

theorem takes_member {α : Type} {r : Reader α} {a : α} {name : String}
    {Value : List Char → Prop} {before behind cs : List Char} (h : Grammar.Member name Value cs)
    (accepted : ∀ value, Value value → Accepts r value a) (hbefore : Gap before)
    (hbehind : Gap behind) {b : UInt8}
    (token : digit? b = none ∧ b ≠ point ∧ Numeral.startsExponent b = false)
    (rest : List UInt8) :
    ∃ tail, Takes (Reader.name (utf8 before ++ (utf8 cs ++ (utf8 behind ++ b :: rest)))) name tail ∧
      Takes (Reader.afterColon r tail) a (utf8 behind ++ b :: rest) := by
  obtain @⟨literal, gap, ahead, value, hname, hgap, hahead, hvalue⟩ := h
  rw [utf8_member]
  refine ⟨_, hname.takes_name hbefore _, ?_⟩
  exact .afterColon_of_pastColon
    (pastColon_of_skipSpace (skipSpace_gap_cons hgap (by decide) _))
    ((accepted value hvalue).token hahead hbehind token rest)

theorem takes_part (fits : Fits known schema put) {part : Option φ} {before behind cs : List Char}
    (h : schema.Part part cs) {state : σ} (fresh : Fresh known schema part.toList state)
    (hbefore : Gap before) (hbehind : Gap behind) {b : UInt8}
    (token : digit? b = none ∧ b ≠ point ∧ Numeral.startsExponent b = false)
    (rest : List UInt8) :
    ∃ name tail,
      Takes (Reader.name (utf8 before ++ (utf8 cs ++ (utf8 behind ++ b :: rest)))) name tail ∧
        Takes (member known state name tail) (part.toList.foldl put state)
          (utf8 behind ++ b :: rest) := by
  cases h with
  | @field f _ hmember =>
    obtain ⟨m, hm, hname, hfind⟩ := fits.exists_find (fits.named f)
    obtain ⟨tail, htail, hread⟩ := takes_member hmember
      (fun value hvalue => fits.accepts hm hname hvalue state) hbefore hbehind token rest
    refine ⟨_, tail, htail, ?_⟩
    have hknown : member known state (schema.name f) = Reader.afterColon (m.read state) := by
      rw [member, hfind]
      exact if_neg (by simp [fresh f (by simp) m hm hname])
    rw [hknown]
    exact hread
  | @unknown name _ hunknown hmember =>
    have skipped (value : List Char) (hvalue : Grammar.Derives .value value) :
        Accepts (Skim.value.map fun _ => state) value state :=
      (accepts_value hvalue).map fun _ => state
    obtain ⟨tail, htail, hread⟩ := takes_member hmember skipped hbefore hbehind token rest
    refine ⟨_, tail, htail, ?_⟩
    rw [member, fits.find_none hunknown]
    exact hread

theorem starts_of_member {name : String} {Value : List Char → Prop} {cs : List Char}
    (h : Grammar.Member name Value cs) : Starts cs := by
  obtain @⟨_, _, _, _, hname⟩ := h
  simp only [List.append_assoc]
  exact hname.starts.append _

theorem starts_of_part {part : Option φ} {cs : List Char} (h : schema.Part part cs) :
    Starts cs := by
  cases h with
  | field hmember => exact starts_of_member hmember
  | unknown _ hmember => exact starts_of_member hmember

theorem reduceOption_cons (part : Option φ) (parts : List (Option φ)) :
    (part :: parts).reduceOption = part.toList ++ parts.reduceOption := by
  cases part <;> rfl

private theorem membersRead_of_commas (fits : Fits known schema put) {parts : List (Option φ)}
    {cs : List Char} (h : Commas schema.Part parts cs) {state : σ}
    (fresh : Fresh known schema parts.reduceOption state)
    (distinct : (parts.reduceOption.map schema.name).Nodup) (rest : List UInt8) :
    MembersRead (member known) state (utf8 cs ++ closeBrace :: rest)
      (parts.reduceOption.foldl put state) rest := by
  induction h generalizing state with
  | @last part _ _ _ hbefore hpart hbehind =>
    rw [reduceOption_cons, List.reduceOption_nil, List.append_nil] at fresh ⊢
    obtain ⟨name, tail, hname, hmember⟩ := fits.takes_part hpart fresh hbefore hbehind
      (b := closeBrace) (by decide) rest
    rw [utf8_last]
    exact .last hname hmember (skipSpace_gap_cons hbehind (by decide) _)
  | @more part parts _ _ _ following hbefore hpart hbehind _ ih =>
    rw [reduceOption_cons] at fresh distinct ⊢
    obtain ⟨name, tail, hname, hmember⟩ :=
      fits.takes_part hpart (fun f hf => fresh f (List.mem_append_left _ hf)) hbefore hbehind
        (b := comma) (by decide) (utf8 following ++ closeBrace :: rest)
    have hrest : MembersRead (member known) (part.toList.foldl put state)
        (utf8 following ++ closeBrace :: rest)
        (parts.reduceOption.foldl put (part.toList.foldl put state)) rest := by
      cases part with
      | none => exact ih fresh distinct
      | some f => exact ih (fits.fresh_put fresh distinct) (List.nodup_cons.mp distinct).2
    rw [List.foldl_append]
    rw [utf8_more]
    exact .more hname hmember (skipSpace_gap_cons hbehind (by decide) _) hrest

private theorem begins_of_parts {parts : List (Option φ)} {cs : List Char}
    (h : Commas schema.Part parts cs) : Begins cs :=
  begins_of_commas h fun _ _ => starts_of_part

private theorem takes_members (fits : Fits known schema put) {parts : List (Option φ)}
    {inside : List Char} (h : Commas schema.Part parts inside) {start : σ}
    (fresh : Fresh known schema parts.reduceOption start)
    (distinct : (parts.reduceOption.map schema.name).Nodup) (rest : List UInt8) :
    Takes (Reader.members (member known) start (utf8 inside ++ closeBrace :: rest))
      (parts.reduceOption.foldl put start) rest := by
  obtain ⟨b, tail, hspace, -, hb⟩ := (begins_of_parts h).skipSpace (closeBrace :: rest)
  exact .members_of_membersOn hspace hb (fits.membersRead_of_commas h fresh distinct rest).membersOn

end Object

section Array

section Steps

variable {state between out : σ} {input tail rest : List UInt8} {b : UInt8}

private theorem fieldsOn_nil (hspace : skipSpace input = b :: tail) :
    fieldsOn state input [] =
      if b = closeBracket then .ok ⟨state, tail, length_lt_of_skipSpace hspace⟩
      else .error .malformed := by
  unfold fieldsOn
  split
  · rename_i hn
    rw [hspace] at hn
    cases hn
  · rename_i hc
    rw [hspace] at hc
    obtain ⟨rfl, rfl⟩ := List.cons.inj hc
    rfl

theorem fieldsOn_cons (hspace : skipSpace input = b :: tail) (field : σ → Reader σ)
    (fields : List (σ → Reader σ)) :
    fieldsOn state input (field :: fields) =
      if b = closeBracket then .ok ⟨state, tail, length_lt_of_skipSpace hspace⟩
      else if b = comma then
        match field state tail with
        | .error fault => .error fault
        | .ok s =>
          match fieldsOn s.result s.rest fields with
          | .error fault => .error fault
          | .ok t => .ok (t.widen
              (Nat.le_of_lt (Nat.lt_trans s.shorter (length_lt_of_skipSpace hspace))))
      else .error .malformed := by
  rw [fieldsOn]
  split
  · rename_i hn
    rw [hspace] at hn
    cases hn
  · rename_i hc
    rw [hspace] at hc
    obtain ⟨rfl, rfl⟩ := List.cons.inj hc
    rfl

theorem fields_cons (hspace : skipSpace input = b :: tail) (field : σ → Reader σ)
    (more : List (σ → Reader σ)) :
    fields state (field :: more) input =
      if b = closeBracket then .ok ⟨state, tail, length_lt_of_skipSpace hspace⟩
      else match field state input with
        | .error fault => .error fault
        | .ok s =>
          match fieldsOn s.result s.rest more with
          | .error fault => .error fault
          | .ok t => .ok (t.widen (Nat.le_of_lt s.shorter)) := by
  rw [fields]
  split
  · rename_i hn
    rw [hspace] at hn
    cases hn
  · rename_i hc
    rw [hspace] at hc
    obtain ⟨rfl, rfl⟩ := List.cons.inj hc
    rfl

private theorem takes_fieldsOn_close (hspace : skipSpace input = closeBracket :: rest)
    (fields : List (σ → Reader σ)) : Takes (fieldsOn state input fields) state rest := by
  cases fields with
  | nil => exact ⟨_, (fieldsOn_nil hspace).trans (if_pos rfl)⟩
  | cons field fields => exact ⟨_, (fieldsOn_cons hspace field fields).trans (if_pos rfl)⟩

private theorem takes_fields_close (hspace : skipSpace input = closeBracket :: rest)
    (more : List (σ → Reader σ)) : Takes (fields state more input) state rest := by
  cases more with
  | nil => exact takes_fieldsOn_close hspace []
  | cons field more => exact ⟨_, (fields_cons hspace field more).trans (if_pos rfl)⟩

private theorem takes_fieldsOn_more {next : List UInt8} {field : σ → Reader σ}
    {fields : List (σ → Reader σ)} (hspace : skipSpace input = comma :: next)
    (hfield : Takes (field state next) between tail)
    (hrest : Takes (fieldsOn between tail fields) out rest) :
    Takes (fieldsOn state input (field :: fields)) out rest := by
  obtain ⟨_, hfield⟩ := hfield
  obtain ⟨_, hrest⟩ := hrest
  rw [fieldsOn_cons hspace, if_neg (by decide), if_pos rfl, hfield]
  dsimp only
  rw [hrest]
  exact ⟨_, rfl⟩

private theorem takes_fields_cons {front : List UInt8} {field : σ → Reader σ}
    {more : List (σ → Reader σ)} (hspace : skipSpace input = b :: front) (hb : b ≠ closeBracket)
    (hfield : Takes (field state input) between tail)
    (hrest : Takes (fieldsOn between tail more) out rest) :
    Takes (fields state (field :: more) input) out rest := by
  obtain ⟨_, hfield⟩ := hfield
  obtain ⟨_, hrest⟩ := hrest
  rw [fields_cons hspace, if_neg hb, hfield]
  dsimp only
  rw [hrest]
  exact ⟨_, rfl⟩

end Steps

private theorem exists_of_commas (fits : Fits known schema put) {fields : List φ} {cs : List Char}
    (h : Commas schema.Written fields cs) {members : List (Member σ)} (hmembers : members ⊆ known)
    (places : fields.map schema.name <+: members.map Member.name) (state : σ)
    (rest : List UInt8) :
    ∃ m more between tail, members = m :: more ∧
      Takes (m.read state (utf8 cs ++ closeBracket :: rest)) between tail ∧
      Takes (fieldsOn between tail (more.map Member.read)) (fields.foldl put state) rest := by
  -- each value takes the first of the members that are left, which has the name of its field
  induction h generalizing members state with
  | @last f before cs behind hbefore hwritten hbehind =>
    cases members with
    | nil => exact absurd (List.prefix_nil.mp places) (List.cons_ne_nil _ _)
    | cons m more =>
      obtain ⟨hname, -⟩ := List.cons_prefix_cons.mp places
      have hread := fits.accepts (hmembers List.mem_cons_self) hname.symm hwritten state
      have htakes := hread.token hbefore hbehind (b := closeBracket) (by decide) rest
      rw [utf8_last]
      exact ⟨m, more, _, _, rfl, htakes,
        takes_fieldsOn_close (skipSpace_gap_cons hbehind (by decide) rest) _⟩
  | @more f fields before cs behind following hbefore hwritten hbehind _ ih =>
    cases members with
    | nil => exact absurd (List.prefix_nil.mp places) (List.cons_ne_nil _ _)
    | cons m more =>
      obtain ⟨hname, places⟩ := List.cons_prefix_cons.mp places
      obtain ⟨hm, hmore⟩ := List.cons_subset.mp hmembers
      have hread := fits.accepts hm hname.symm hwritten state
      have htakes := hread.token hbefore hbehind (b := comma) (by decide)
        (utf8 following ++ closeBracket :: rest)
      obtain ⟨next, others, between, tail, rfl, hnext, hothers⟩ := ih hmore places (put state f)
      rw [utf8_more]
      exact ⟨m, next :: others, _, _, rfl, htakes,
        takes_fieldsOn_more (skipSpace_gap_cons hbehind (by decide) _) hnext hothers⟩

private theorem takes_fields (fits : Fits known schema put) {fields : List φ} {inside : List Char}
    (h : Commas schema.Written fields inside) (places : fields.map schema.name <+: schema.names)
    (start : σ) (rest : List UInt8) :
    Takes (Shape.fields start (known.map Member.read) (utf8 inside ++ closeBracket :: rest))
      (fields.foldl put start) rest := by
  rw [← fits.names] at places
  obtain ⟨m, more, between, tail, rfl, hfirst, hothers⟩ :=
    fits.exists_of_commas h (List.Subset.refl known) places start rest
  have begins : Begins inside := begins_of_commas h fun _ _ => fits.starts_of_written start
  obtain ⟨b, front, hspace, hb, -⟩ := begins.skipSpace (closeBracket :: rest)
  exact takes_fields_cons hspace hb hfirst hothers

end Array

private theorem accepts_brackets {start out : σ} {inside : List Char}
    (h : ∀ rest, Takes (Shape.fields start (known.map Member.read)
      (utf8 inside ++ closeBracket :: rest)) out rest) :
    Accepts (record known start) ('[' :: inside ++ [']']) out := by
  refine ⟨starts_cons (by decide) (by decide) _, ?_⟩
  intro gap rest hgap _
  obtain ⟨_, hfields⟩ := h rest
  rw [utf8_brackets]
  refine .onByte_of_skipSpace (skipSpace_gap_cons hgap (by decide) _) ?_
  rw [if_pos rfl]
  dsimp only
  rw [hfields]
  exact ⟨_, rfl⟩

private theorem accepts_braces {start out : σ} {inside : List Char}
    (h : ∀ rest, Takes (Reader.members (member known) start
      (utf8 inside ++ closeBrace :: rest)) out rest) :
    Accepts (record known start) ('{' :: inside ++ ['}']) out := by
  refine ⟨starts_cons (by decide) (by decide) _, ?_⟩
  intro gap rest hgap _
  obtain ⟨_, hmembers⟩ := h rest
  rw [utf8_braces]
  refine .onByte_of_skipSpace (skipSpace_gap_cons hgap (by decide) _) ?_
  rw [if_neg (by decide), if_pos rfl]
  dsimp only
  rw [hmembers]
  exact ⟨_, rfl⟩

/-- A record accepts every text that states its fields, by name or by position. -/
theorem accepts_record (fits : Fits known schema put) {fields : List φ} {cs : List Char}
    (h : schema.States fields cs) (distinct : (fields.map schema.name).Nodup) {start : σ}
    (fresh : ∀ m ∈ known, m.seen start = false) :
    Accepts (record known start) cs (fields.foldl put start) := by
  cases h with
  | array harray places =>
    cases harray with
    | nil hgap =>
      exact accepts_brackets fun rest =>
        takes_fields_close (skipSpace_gap_cons hgap (by decide) rest) _
    | commas hcommas => exact accepts_brackets (fits.takes_fields hcommas places start)
  | object hobject hperm =>
    have hdistinct : (List.map schema.name _).Nodup :=
      (hperm.map schema.name).nodup_iff.mpr distinct
    rw [← foldl_perm fits.comm hperm hdistinct]
    cases hobject with
    | nil hgap =>
      exact accepts_braces fun rest =>
        .members_of_skipSpace_nil (skipSpace_gap_cons hgap (by decide) rest)
    | commas hcommas =>
      exact accepts_braces
        (fits.takes_members hcommas (fun f _ m hm _ => fresh m hm) hdistinct)

end Fits

end PoolUplink.Json.Shape
