import PoolUplink.Proofs.Uplink.Outcome

/-!
# Which features a pool has

A pool has the features whose names are among the texts it lists, and none if it lists nothing. In
which order it lists them, how often, and what else is in the list makes no difference.
-/

set_option autoImplicit false
set_option relaxedAutoImplicit false

namespace PoolUplink

open PoolUplink.Json (Value)
open PoolUplink.Rpc (Message)

namespace Features

/-- A result lists items: it is an object, and its member for the features is an array of them. -/
def Lists (result : Option Value) (items : List Value) : Prop :=
  ∃ members, result = some (.object members) ∧
    members.lookup "capabilities" = some (.array items)

def Known (v : Value) : Prop := v = .string "verrol" ∨ v = .string "subres"

/-- Items are another list of the same features: reordered, repeated or among other values. -/
inductive Relisted : List Value → List Value → Prop
  | reordered {items items' : List Value} : items.Perm items' → Relisted items items'
  | repeated {items : List Value} {v : Value} : v ∈ items → Relisted items (v :: items)
  | mixed {items : List Value} {v : Value} : ¬ Known v → Relisted items (v :: items)
  | trans {items items' items'' : List Value} :
      Relisted items items' → Relisted items' items'' → Relisted items items''

private theorem Relisted.mem_iff {items items' : List Value} (h : Relisted items items') {v : Value}
    (known : Known v) : v ∈ items' ↔ v ∈ items := by
  induction h with
  | reordered perm => exact perm.mem_iff.symm
  | repeated hw =>
    rw [List.mem_cons, or_iff_right_iff_imp]
    rintro rfl
    exact hw
  | mixed hw =>
    rw [List.mem_cons, or_iff_right]
    rintro rfl
    exact hw known
  | trans _ _ ih ih' => exact ih'.trans ih

private theorem contains_names (items : List Value) (name : String) :
    (names items).contains name = true ↔ .string name ∈ items := by
  have htext (v : Value) : v.string? = some name ↔ v = .string name := by
    cases v <;> simp [Value.string?]
  rw [List.contains_iff_mem, names, List.mem_filterMap]
  simp only [htext, exists_eq_right]

private theorem ofResult_of_lists {result : Option Value} {items : List Value}
    (h : Lists result items) : ofResult result = (ofNames (names items), []) := by
  obtain ⟨members, rfl, hlist⟩ := h
  simp only [ofResult, list, Option.bind_some, Value.members?, hlist, Value.items?]

theorem Lists.unique {result : Option Value} {items items' : List Value} (h : Lists result items)
    (h' : Lists result items') : items = items' := by
  obtain ⟨members, rfl, hlist⟩ := h
  obtain ⟨members', heq, hlist'⟩ := h'
  injection heq with heq
  injection heq with heq
  rw [heq, hlist'] at hlist
  injection hlist with hlist
  injection hlist with hlist
  exact hlist.symm

private theorem ofResult_of_no_list {result : Option Value} (h : ∀ items, ¬ Lists result items) :
    ∃ problem, ofResult result = (none, [problem]) := by
  unfold ofResult
  split
  · -- what is read without a problem is a list
    rename_i items hlist
    unfold list at hlist
    split at hlist
    · cases hlist
    rename_i members hmembers
    split at hlist
    · cases hlist
    rename_i v hlookup
    split at hlist
    · cases hlist
    rename_i read hitems
    cases hlist
    obtain ⟨w, rfl, hw⟩ := Option.bind_eq_some_iff.mp hmembers
    cases w <;> cases hw
    cases v <;> cases hitems
    exact absurd ⟨members, rfl, hlookup⟩ (h items)
  · exact ⟨_, rfl⟩

theorem has_iff_listed {flag : Features → Bool} {name : String} (result : Option Value)
    (absent : flag none = false)
    (present : ∀ names, flag (ofNames names) = names.contains name) :
    flag (ofResult result).1 = true ↔ ∃ items, Lists result items ∧ .string name ∈ items := by
  by_cases listed : ∃ items, Lists result items
  · obtain ⟨items, lists⟩ := listed
    rw [ofResult_of_lists lists, present, contains_names]
    constructor
    · exact fun named => ⟨items, lists, named⟩
    · rintro ⟨items', lists', named⟩
      rw [lists.unique lists']
      exact named
  · simp only [not_exists] at listed
    obtain ⟨problem, hread⟩ := ofResult_of_no_list listed
    rw [hread, absent]
    simp [listed]

private theorem ofNames_congr {items items' : List Value}
    (h : ∀ v, Known v → (v ∈ items' ↔ v ∈ items)) :
    ofNames (names items') = ofNames (names items) := by
  have hcontains {name : String} (known : Known (.string name)) :
      (names items').contains name = (names items).contains name := by
    rw [Bool.eq_iff_iff, contains_names, contains_names]
    exact h _ known
  have rolling : (names items').contains Rpc.Setup.versionRolling =
      (names items).contains Rpc.Setup.versionRolling := hcontains (Or.inl rfl)
  have submits : (names items').contains Rpc.Setup.submitResponse =
      (names items).contains Rpc.Setup.submitResponse := hcontains (Or.inr rfl)
  rw [ofNames, ofNames, rolling, submits]

end Features

namespace Uplink

open Features (Lists Relisted)

private theorem onLine_of_features {bytes : List UInt8} {result error : Option Value}
    (h : Message.ofLine bytes = .ok (.response (some (.string "caps")) result error))
    (u : Uplink) :
    (u.onLine bytes).1 = .ok (u.heed (.featured (Features.ofResult result).1)) := by
  have hnotice : Notice.ofItem (.line bytes) = .ok (.featured (Features.ofResult result).1) :=
    Notice.ofItem_response (e := .features) h
  rw [onLine_fst, hnotice]
  rfl

/-- A feature is read from a result exactly if the result lists its name. Of a list there is no
problem, and of anything else there is one and no feature. Listing the same features in another
way changes nothing, and listing more can only add some. The response to the features exchange is
never fatal, whatever its result is: it counts as answered, and just these features replace those
from before. -/
theorem features_iff_listed (result : Option Value) :
    ((Features.ofResult result).1.versionRolling = true ↔
      ∃ items, Lists result items ∧ .string "verrol" ∈ items) ∧
    ((Features.ofResult result).1.submitResponse = true ↔
      ∃ items, Lists result items ∧ .string "subres" ∈ items) ∧
    ((∃ items, Lists result items) → (Features.ofResult result).2 = []) ∧
    ((∀ items, ¬ Lists result items) →
      (Features.ofResult result).1 = ⟨false, false⟩ ∧ (Features.ofResult result).2.length = 1) ∧
    (∀ other items items', Lists result items → Lists other items' → Relisted items items' →
      Features.ofResult other = Features.ofResult result) ∧
    (∀ other items more, Lists result items → Lists other (items ++ more) →
      ((Features.ofResult result).1.versionRolling = true →
        (Features.ofResult other).1.versionRolling = true) ∧
      ((Features.ofResult result).1.submitResponse = true →
        (Features.ofResult other).1.submitResponse = true)) ∧
    ∀ (u : Uplink) (bytes : List UInt8) (error : Option Value),
      Message.ofLine bytes = .ok (.response (some (.string "caps")) result error) →
      ∃ v, (u.onLine bytes).1 = .ok v ∧ v.answered.features = true ∧
        v.features = (Features.ofResult result).1 := by
  have rolls (r : Option Value) : (Features.ofResult r).1.versionRolling = true ↔
      ∃ items, Lists r items ∧ .string "verrol" ∈ items :=
    Features.has_iff_listed r rfl fun _ => rfl
  have submits (r : Option Value) : (Features.ofResult r).1.submitResponse = true ↔
      ∃ items, Lists r items ∧ .string "subres" ∈ items :=
    Features.has_iff_listed r rfl fun _ => rfl
  refine ⟨rolls result, submits result, ?_, fun unlisted => ?_, ?_, ?_, fun u bytes error hm => ?_⟩
  · rintro ⟨items, lists⟩
    rw [Features.ofResult_of_lists lists]
  · obtain ⟨problem, hread⟩ := Features.ofResult_of_no_list unlisted
    rw [hread]
    exact ⟨rfl, rfl⟩
  · intro other items items' lists lists' relisted
    rw [Features.ofResult_of_lists lists, Features.ofResult_of_lists lists',
      Features.ofNames_congr fun v known => relisted.mem_iff known]
  · intro other items more lists lists'
    rw [rolls, rolls, submits, submits]
    have more {name : String} (h : ∃ read, Lists result read ∧ .string name ∈ read) :
        ∃ read, Lists other read ∧ .string name ∈ read := by
      obtain ⟨read, hread, named⟩ := h
      obtain rfl := hread.unique lists
      exact ⟨_, lists', List.mem_append_left _ named⟩
    exact ⟨more, more⟩
  · refine ⟨_, onLine_of_features hm u, ?_, ?_⟩
    · rw [heed, promoted_eq]
    · rw [heed, promoted_eq]

def sampleListed : List Value := [.string "verrol", .ofNat 42]

def sampleRelisted : List Value := [.null, .string "verrol", .ofNat 42, .string "verrol"]

def sampleListing (items : List Value) : Option Value :=
  some (.object [("capabilities", .array items)])

def sampleListingLine : List UInt8 :=
  Json.Ascii.bytes
    "\x7b\"id\":\"caps\",\"result\":\x7b\"capabilities\":[\"verrol\",42]\x7d\x7d\n"

theorem features_iff_listed_of_sampleListing :
    ∃ u, create sampleSettings "account" 0 = .ok u ∧
      Lists (sampleListing sampleListed) sampleListed ∧
      Lists (sampleListing sampleRelisted) sampleRelisted ∧
      Relisted sampleListed sampleRelisted ∧
      Features.ofResult (sampleListing sampleRelisted) =
        Features.ofResult (sampleListing sampleListed) ∧
      Message.ofLine sampleListingLine =
        .ok (.response (some (.string "caps")) (sampleListing sampleListed) none) ∧
      ∃ v, (u.onLine sampleListingLine).1 = .ok v ∧ v.answered.features = true ∧
        v.features = ⟨true, false⟩ := by
  obtain ⟨u, created⟩ : ∃ u, create sampleSettings "account" 0 = .ok u := ⟨_, rfl⟩
  have lists (items : List Value) : Lists (sampleListing items) items := ⟨_, rfl, rfl⟩
  have relisted : Relisted sampleListed sampleRelisted := by
    have twice : Relisted sampleListed (.string "verrol" :: sampleListed) :=
      .repeated List.mem_cons_self
    have foreign : ¬ Features.Known .null := by
      rintro (h | h) <;> cases h
    have mixed : Relisted sampleListed (.null :: .string "verrol" :: sampleListed) :=
      twice.trans (.mixed foreign)
    refine mixed.trans (.reordered ?_)
    exact ((List.Perm.swap _ _ []).cons _).cons _
  have hmessage : Message.ofLine sampleListingLine =
      .ok (.response (some (.string "caps")) (sampleListing sampleListed) none) := by
    decide +kernel
  obtain ⟨-, -, -, -, same, -, line⟩ := features_iff_listed (sampleListing sampleListed)
  obtain ⟨v, hv, answered, hfeatures⟩ := line u sampleListingLine none hmessage
  have hread : (Features.ofResult (sampleListing sampleListed)).1 = ⟨true, false⟩ := by
    decide +kernel
  exact ⟨u, created, lists _, lists _, relisted, same _ _ _ (lists _) (lists _) relisted, hmessage,
    v, hv, answered, hfeatures.trans hread⟩

end Uplink

end PoolUplink
