import Mathlib.Data.List.Forall2
import PoolUplink.Json.Shape
import PoolUplink.Proofs.Json.Loops

/-!
# Shapes are read like values

A reader for a shape takes the same bytes as the reader of values does, and makes of them what the
value tells. So what a document is read as depends on its value alone: blanks, escapes and the ways
to write a text make no difference, and of an object only its members count.
-/

set_option autoImplicit false
set_option relaxedAutoImplicit false

namespace PoolUplink.Json

open PoolUplink.Json.Ascii

/-- Wherever a value is read, a reader reads something of its own from the same bytes. -/
def Reads {α : Type} (r : Reader α) (v : Value) (result : α) : Prop :=
  ∀ ⦃depth : Nat⦄ ⦃input rest : List UInt8⦄, Takes (Value.readTo depth input) v rest →
    Takes (r input) result rest

namespace Reads

variable {α β : Type} {v : Value} {result : α}

theorem map {r : Reader α} (h : Reads r v result) (f : α → β) : Reads (r.map f) v (f result) :=
  fun _ _ _ hv => (h hv).map f

theorem filterMap {r : Reader α} {f : α → Option β} {b : β} (h : Reads r v result)
    (hf : f result = some b) : Reads (r.filterMap f) v b :=
  fun _ _ _ hv => (h hv).filterMap hf

theorem run {r : Reader α} (h : Reads r v result) {input : List UInt8}
    (hv : Value.read input = .ok v) : r.run input = .ok result := by
  obtain ⟨rest, htakes, hblank⟩ := Takes.of_run hv
  exact (h htakes).run hblank

end Reads

namespace Shape

open Value (readTo exists_spelled_of_readTo of_readTo_array of_readTo_object)

theorem reads_text (s : String) : Reads text (.string s) s := by
  intro depth input rest h
  obtain ⟨_, _, b, tail, hspace, hspelled⟩ := exists_spelled_of_readTo h
  cases hspelled with
  | string hliteral =>
    obtain ⟨_, hliteral⟩ := hliteral
    refine .onByte_of_skipSpace hspace ?_
    rw [if_pos rfl, hliteral]
    exact ⟨_, rfl⟩

theorem reads_flag (b : Bool) : Reads flag (.bool b) b := by
  intro depth input rest h
  obtain ⟨_, _, first, tail, hspace, hspelled⟩ := exists_spelled_of_readTo h
  refine .onByte_of_skipSpace hspace ?_
  cases hspelled with
  | yes hword => exact if_pos rfl ▸ hword
  | no hword =>
    rw [if_neg (by decide), if_pos rfl]
    exact hword

theorem reads_natural {bound n : Nat} (exact : Exact n) (h : n < bound) :
    Reads (natural bound) (.number (.whole n exact)) n := by
  intro depth input rest hv
  obtain ⟨_, _, b, tail, hspace, hspelled⟩ := exists_spelled_of_readTo hv
  cases hspelled with
  | number hb hnumeral =>
    refine .onByte_of_skipSpace hspace ?_
    rw [if_pos hb]
    exact hnumeral.filterMap (if_pos h)

private theorem itemsRead_of_reads {α : Type} {item : Reader α} {depth : Nat}
    {input rest : List UInt8} {vs : List Value} (h : ItemsRead (readTo depth) input vs rest) :
    ∀ {xs : List α}, List.Forall₂ (Reads item) vs xs → ItemsRead item input xs rest := by
  induction h with
  | last hitem hspace =>
    intro xs hall
    cases hall with
    | cons hfirst hrest =>
      cases hrest with
      | nil => exact .last (hfirst hitem) hspace
  | more hitem hspace _ ih =>
    intro xs hall
    cases hall with
    | cons hfirst hrest => exact .more (hfirst hitem) hspace (ih hrest)

theorem reads_list {α : Type} {item : Reader α} {vs : List Value} {xs : List α}
    (h : List.Forall₂ (Reads item) vs xs) : Reads (list item) (.array vs) xs := by
  intro depth input rest hv
  obtain ⟨inner, tail, hspace, harray⟩ := of_readTo_array hv
  have hitems : Takes (Reader.items item tail) xs rest := by
    rcases Takes.of_items harray with ⟨rfl, hclose⟩ | ⟨b, behind, hopen, hne, hread⟩
    · cases h with
      | nil => exact .items_of_skipSpace_nil hclose
    · exact .items_of_itemsOn hopen hne ((itemsRead_of_reads hread h).itemsOn [])
  obtain ⟨_, hitems⟩ := hitems
  refine .onByte_of_skipSpace hspace ?_
  rw [if_pos rfl, hitems]
  exact ⟨_, rfl⟩

/-- What the members of an object do to the state of a record, one after the other. -/
inductive Fills {σ : Type} (known : List (Member σ)) : σ → List (String × Value) → σ → Prop
  | done (state : σ) : Fills known state [] state
  | next {state between out : σ} {m : Member σ} {name : String} {v : Value}
      {ms : List (String × Value)} : known.find? (·.name == name) = some m →
      m.seen state = false → Reads (m.read state) v between → Fills known between ms out →
      Fills known state ((name, v) :: ms) out

section Record

variable {σ : Type} {known : List (Member σ)}

private theorem takes_member {m : Member σ} {state between : σ} {name : String} {v : Value}
    {depth : Nat} {input tail rest : List UInt8} (hknown : known.find? (·.name == name) = some m)
    (hseen : m.seen state = false) (hreads : Reads (m.read state) v between)
    (hcolon : Takes (pastColon input) () tail) (hvalue : Takes (readTo depth tail) v rest) :
    Takes (member known state name input) between rest := by
  have hmember : member known state name = Reader.afterColon (m.read state) := by
    rw [member, hknown]
    exact if_neg (by simp [hseen])
  rw [hmember]
  exact .afterColon_of_pastColon hcolon (hreads hvalue)

private theorem of_valueMember {depth : Nat} {before between : List (String × Value)}
    {name : String} {input rest : List UInt8}
    (h : Takes (Value.member (readTo depth) before name input) between rest) :
    ∃ v tail, between = (name, v) :: before ∧ Takes (pastColon input) () tail ∧
      Takes (readTo depth tail) v rest := by
  obtain ⟨tail, hcolon, hmap⟩ := Takes.of_afterColon h
  obtain ⟨v, hbetween, hvalue⟩ := Takes.of_map hmap
  exact ⟨v, tail, hbetween, hcolon, hvalue⟩

private theorem membersRead_of_fills {depth : Nat} {before out : List (String × Value)}
    {input rest : List UInt8}
    (h : MembersRead (Value.member (readTo depth)) before input out rest) :
    ∃ ms, out = ms.reverse ++ before ∧ ∀ {state final : σ}, Fills known state ms final →
      MembersRead (member known) state input final rest := by
  -- both readers go over the same members, so the account of one is the account of the other
  induction h with
  | @last _ _ _ _ _ _ name hname hmember hspace =>
    obtain ⟨v, tail, rfl, hcolon, hvalue⟩ := of_valueMember hmember
    refine ⟨[(name, v)], rfl, ?_⟩
    intro state final hfills
    cases hfills with
    | next hknown hseen hreads hdone =>
      cases hdone with
      | done => exact .last hname (takes_member hknown hseen hreads hcolon hvalue) hspace
  | @more _ _ _ _ _ _ _ _ name hname hmember hspace _ ih =>
    obtain ⟨v, tail, rfl, hcolon, hvalue⟩ := of_valueMember hmember
    obtain ⟨ms, hout, hmore⟩ := ih
    refine ⟨(name, v) :: ms, by simp [hout], ?_⟩
    intro state final hfills
    cases hfills with
    | next hknown hseen hreads hrest =>
      exact .more hname (takes_member hknown hseen hreads hcolon hvalue) hspace (hmore hrest)

theorem reads_slot {α : Type} {value : Reader α} {v : Value} {x : α} (h : Reads value v x)
    (name : String) (get : σ → Option α) (put : α → σ → σ) (state : σ) :
    Reads ((slot name get put value).read state) v (put x state) :=
  h.map fun x => put x state

theorem reads_record {start final : σ} {ms : List (String × Value)}
    (h : Fills known start ms final) : Reads (record known start) (.object ms) final := by
  intro depth input rest hv
  obtain ⟨inner, tail, hspace, hobject⟩ := of_readTo_object hv
  have hmembers : Takes (Reader.members (member known) start tail) final rest := by
    rcases Takes.of_members hobject with ⟨hnil, hclose⟩ | ⟨b, behind, hopen, hne, hread⟩
    · obtain rfl := List.reverse_eq_nil_iff.mp hnil
      cases h with
      | done => exact .members_of_skipSpace_nil hclose
    · obtain ⟨read, hread, hfills⟩ := membersRead_of_fills hread
      have hms : ms = read := by simpa using hread
      exact .members_of_membersOn hopen hne (hfills (hms ▸ h)).membersOn
  obtain ⟨_, hmembers⟩ := hmembers
  refine .onByte_of_skipSpace hspace ?_
  rw [if_neg (by decide), if_pos rfl]
  dsimp only
  rw [hmembers]
  exact ⟨_, rfl⟩

end Record

end Shape

end PoolUplink.Json
