import PoolUplink.Proofs.Json.Settle
import PoolUplink.Rpc.Message

/-!
# Requests and responses told apart

Which kind of message an object is depends on how often the names that a kind knows stand in it,
and on the method. Everything else, the order of the members and unknown or repeated names that
the kind does not know, makes no difference.
-/

set_option autoImplicit false
set_option relaxedAutoImplicit false

namespace PoolUplink.Rpc.Message

open PoolUplink.Json

variable {members : List (String × Value)}

def occurrences (name : String) (members : List (String × Value)) : Nat :=
  (members.map Prod.fst).count name

/-- What makes members those of a request. -/
structure StatesRequest (members : List (String × Value)) : Prop where
  single : occurrences "method" members = 1
  named : ∃ method, ("method", .string method) ∈ members ∧ method ≠ ""
  id : occurrences "id" members ≤ 1
  params : occurrences "params" members ≤ 1

/-- What makes members those of a response, if they are not those of a request. -/
structure StatesResponse (members : List (String × Value)) : Prop where
  id : occurrences "id" members ≤ 1
  result : occurrences "result" members ≤ 1
  error : occurrences "error" members ≤ 1

/-- What is kept of a name: nothing if it is absent or `null`, and its value in normal form
otherwise. -/
inductive Keeps (name : String) (members : List (String × Value)) : Option Value → Prop
  | nothing : (∀ v, (name, v) ∈ members → v = .null) → Keeps name members none
  | kept {v : Value} : (name, v) ∈ members → v ≠ .null → Keeps name members (some v.settle)

private theorem occurrences_eq (name : String) (members : List (String × Value)) :
    occurrences name members = (members.filter (·.1 == name)).length := by
  unfold occurrences
  rw [List.count_eq_countP, List.countP_map, List.countP_eq_length_filter]
  rfl

private theorem mem_iff_mem_filter (name : String) (v : Value) :
    (name, v) ∈ members ↔ (name, v) ∈ members.filter (·.1 == name) := by
  simp [List.mem_filter]

private theorem unique?_cases (name : String) (members : List (String × Value)) :
    (unique? name members = some none ∧ occurrences name members = 0 ∧
        ∀ v, (name, v) ∉ members) ∨
      (∃ v, unique? name members = some (some v) ∧ occurrences name members = 1 ∧
        ∀ w, (name, w) ∈ members ↔ w = v) ∨
      (unique? name members = none ∧ 1 < occurrences name members) := by
  have hmem (v : Value) : (name, v) ∈ members ↔ (name, v) ∈ members.filter (·.1 == name) :=
    mem_iff_mem_filter name v
  rw [occurrences_eq]
  unfold unique?
  cases hf : members.filter (·.1 == name) with
  | nil =>
    refine Or.inl ⟨rfl, rfl, fun v hv => ?_⟩
    rw [hmem v, hf] at hv
    cases hv
  | cons m rest =>
    cases rest with
    | nil =>
      have hm : m.1 = name := by
        have h := List.mem_filter.mp (hf ▸ List.mem_cons_self)
        exact eq_of_beq h.2
      refine Or.inr (Or.inl ⟨m.2, rfl, rfl, fun w => ?_⟩)
      rw [hmem w, hf, List.mem_singleton]
      constructor
      · rintro rfl
        rfl
      · rintro rfl
        rw [← hm]
    | cons n rest => exact Or.inr (Or.inr ⟨rfl, by simp⟩)

private theorem part?_eq_some_iff (name : String) (part : Option Value) :
    part? name members = some part ↔ occurrences name members ≤ 1 ∧ Keeps name members part := by
  unfold part?
  rcases unique?_cases name members with ⟨hu, ho, hno⟩ | ⟨v, hu, ho, hv⟩ | ⟨hu, ho⟩
  · rw [hu, ho]
    constructor
    · intro h
      cases h
      exact ⟨by omega, .nothing fun v hv => absurd hv (hno v)⟩
    · rintro ⟨-, h⟩
      cases h with
      | nothing _ => rfl
      | kept hv _ => exact absurd hv (hno _)
  · rw [hu, ho]
    by_cases hnull : v = .null
    · subst hnull
      constructor
      · intro h
        cases h
        exact ⟨by omega, .nothing fun w hw => (hv w).mp hw⟩
      · rintro ⟨-, h⟩
        cases h with
        | nothing _ => rfl
        | kept hw hne => exact absurd ((hv _).mp hw) hne
    · have hkept : (Option.map (fun v => v.bind fun w => w.settle.present?) (some (some v))) =
          some (some v.settle) := congrArg some (Value.present?_settle hnull)
      rw [hkept]
      constructor
      · intro h
        cases h
        exact ⟨by omega, .kept ((hv v).mpr rfl) hnull⟩
      · rintro ⟨-, h⟩
        cases h with
        | nothing hall => exact absurd (hall v ((hv v).mpr rfl)) hnull
        | kept hw _ => rw [(hv _).mp hw]
  · rw [hu]
    constructor
    · intro h
      cases h
    · rintro ⟨hle, -⟩
      omega

private theorem exists_part (name : String) (h : occurrences name members ≤ 1) :
    ∃ part, part? name members = some part := by
  unfold part?
  rcases unique?_cases name members with ⟨hu, -⟩ | ⟨v, hu, -⟩ | ⟨-, ho⟩
  · exact ⟨_, by rw [hu, Option.map_some]⟩
  · exact ⟨_, by rw [hu, Option.map_some]⟩
  · omega

private theorem unique?_eq_some_iff (name : String) (v : Value) :
    unique? name members = some (some v) ↔ occurrences name members = 1 ∧ (name, v) ∈ members := by
  rcases unique?_cases name members with ⟨hu, ho, hno⟩ | ⟨w, hu, ho, hw⟩ | ⟨hu, ho⟩
  · simp [hu, ho]
  · simp [hu, ho, hw, eq_comm]
  · have hne : occurrences name members ≠ 1 := by omega
    simp [hu, hne]

private theorem params_eq (stated : Option Value) :
    (stated.map Value.settle).getD .null =
      (stated.bind fun w => w.settle.present?).getD .null := by
  cases stated with
  | none => rfl
  | some v => cases v <;> rfl

private theorem exists_of_asRequest? {m : Message} (h : asRequest? members = some m) :
    ∃ id method params, m = request id method (params.getD .null) ∧
      part? "id" members = some id ∧ unique? "method" members = some (some (.string method)) ∧
      part? "params" members = some params ∧ method ≠ "" := by
  unfold asRequest? at h
  split at h
  · rename_i id method params hid hmethod hparams
    split at h
    · cases h
    · rename_i hne
      cases h
      have hpart : part? "params" members = some (params.bind fun w => w.settle.present?) := by
        rw [part?, hparams, Option.map_some]
      exact ⟨id, method, _, by rw [params_eq], hid, hmethod, hpart, hne⟩
  · cases h

private theorem asRequest?_of_parts {id params : Option Value} {method : String}
    (hid : part? "id" members = some id)
    (hmethod : unique? "method" members = some (some (.string method)))
    (hparams : part? "params" members = some params) (hne : method ≠ "") :
    asRequest? members = some (request id method (params.getD .null)) := by
  obtain ⟨stated, hstated, rfl⟩ := Option.map_eq_some_iff.mp hparams
  simp only [asRequest?, hid, hmethod, hstated, if_neg hne, params_eq]

theorem asRequest?_eq_some_iff {m : Message} :
    asRequest? members = some m ↔ StatesRequest members ∧
      ∃ id method params, m = request id method (params.getD .null) ∧ Keeps "id" members id ∧
        ("method", .string method) ∈ members ∧ method ≠ "" ∧ Keeps "params" members params := by
  constructor
  · intro h
    obtain ⟨id, method, params, rfl, hid, hmethod, hparams, hne⟩ := exists_of_asRequest? h
    obtain ⟨oid, kid⟩ := (part?_eq_some_iff _ _).mp hid
    obtain ⟨omethod, hmem⟩ := (unique?_eq_some_iff _ _).mp hmethod
    obtain ⟨oparams, kparams⟩ := (part?_eq_some_iff _ _).mp hparams
    exact ⟨⟨omethod, ⟨method, hmem, hne⟩, oid, oparams⟩, id, method, params, rfl, kid, hmem, hne,
      kparams⟩
  · rintro ⟨⟨omethod, -, oid, oparams⟩, id, method, params, rfl, kid, hmem, hne, kparams⟩
    have hid := (part?_eq_some_iff _ _).mpr ⟨oid, kid⟩
    have hparams := (part?_eq_some_iff _ _).mpr ⟨oparams, kparams⟩
    have hmethod := (unique?_eq_some_iff _ _).mpr ⟨omethod, hmem⟩
    exact asRequest?_of_parts hid hmethod hparams hne

private theorem exists_asRequest? (h : StatesRequest members) :
    ∃ m, asRequest? members = some m := by
  obtain ⟨id, hid⟩ := exists_part "id" h.id
  obtain ⟨params, hparams⟩ := exists_part "params" h.params
  obtain ⟨method, hmem, hne⟩ := h.named
  have hmethod := (unique?_eq_some_iff _ _).mpr ⟨h.single, hmem⟩
  exact ⟨_, asRequest?_of_parts hid hmethod hparams hne⟩

theorem asResponse?_eq_some_iff {m : Message} :
    asResponse? members = some m ↔ StatesResponse members ∧
      ∃ id result error, m = response id result error ∧ Keeps "id" members id ∧
        Keeps "result" members result ∧ Keeps "error" members error := by
  constructor
  · intro h
    unfold asResponse? at h
    split at h
    · rename_i id result error hid hresult herror
      cases h
      obtain ⟨oid, kid⟩ := (part?_eq_some_iff _ _).mp hid
      obtain ⟨oresult, kresult⟩ := (part?_eq_some_iff _ _).mp hresult
      obtain ⟨oerror, kerror⟩ := (part?_eq_some_iff _ _).mp herror
      exact ⟨⟨oid, oresult, oerror⟩, id, result, error, rfl, kid, kresult, kerror⟩
    · cases h
  · rintro ⟨⟨oid, oresult, oerror⟩, id, result, error, rfl, kid, kresult, kerror⟩
    have hid := (part?_eq_some_iff _ _).mpr ⟨oid, kid⟩
    have hresult := (part?_eq_some_iff _ _).mpr ⟨oresult, kresult⟩
    have herror := (part?_eq_some_iff _ _).mpr ⟨oerror, kerror⟩
    simp only [asResponse?, hid, hresult, herror]

private theorem exists_asResponse? (h : StatesResponse members) :
    ∃ m, asResponse? members = some m := by
  obtain ⟨id, hid⟩ := exists_part "id" h.id
  obtain ⟨result, hresult⟩ := exists_part "result" h.result
  obtain ⟨error, herror⟩ := exists_part "error" h.error
  exact ⟨response id result error, by simp only [asResponse?, hid, hresult, herror]⟩

private theorem ofLine_of_read {line : List UInt8} {v : Value} (read : Value.read line = .ok v) :
    ofLine line = match ofValue? v with
      | some m => .ok m
      | none => .error .misshapen := by
  unfold Value.read Reader.run at read
  unfold ofLine Reader.run Reader.filterMap
  cases hr : Value.reader line with
  | error fault =>
    rw [hr] at read
    cases read
  | ok s =>
    rw [hr] at read
    dsimp only at read ⊢
    split at read
    · rename_i hblank
      cases read
      cases ofValue? s.result with
      | none => rfl
      | some m => exact if_pos hblank
    · cases read

private theorem ofLine_cases {line : List UInt8} (read : Value.read line = .ok (.object members)) :
    (StatesRequest members ∧ ∃ id method params,
        ofLine line = .ok (request id method (params.getD .null)) ∧ Keeps "id" members id ∧
          ("method", .string method) ∈ members ∧ method ≠ "" ∧
          Keeps "params" members params) ∨
      (¬ StatesRequest members ∧ StatesResponse members ∧ ∃ id result error,
        ofLine line = .ok (response id result error) ∧ Keeps "id" members id ∧
          Keeps "result" members result ∧ Keeps "error" members error) ∨
      (¬ StatesRequest members ∧ ¬ StatesResponse members ∧ ofLine line = .error .misshapen) := by
  have hline := ofLine_of_read read
  rw [ofValue?] at hline
  by_cases hrequest : StatesRequest members
  · obtain ⟨m, hm⟩ := exists_asRequest? hrequest
    obtain ⟨-, id, method, params, rfl, hkeeps⟩ := asRequest?_eq_some_iff.mp hm
    rw [hm] at hline
    exact Or.inl ⟨hrequest, id, method, params, hline, hkeeps⟩
  · have hnone : asRequest? members = none := by
      by_contra hsome
      obtain ⟨m, hm⟩ := Option.ne_none_iff_exists'.mp hsome
      exact hrequest (asRequest?_eq_some_iff.mp hm).1
    rw [hnone] at hline
    dsimp only at hline
    by_cases hresponse : StatesResponse members
    · obtain ⟨m, hm⟩ := exists_asResponse? hresponse
      obtain ⟨-, id, result, error, rfl, hkeeps⟩ := asResponse?_eq_some_iff.mp hm
      rw [hm] at hline
      exact Or.inr (Or.inl ⟨hrequest, hresponse, id, result, error, hline, hkeeps⟩)
    · have hneither : asResponse? members = none := by
        by_contra hsome
        obtain ⟨m, hm⟩ := Option.ne_none_iff_exists'.mp hsome
        exact hresponse (asResponse?_eq_some_iff.mp hm).1
      rw [hneither] at hline
      exact Or.inr (Or.inr ⟨hrequest, hresponse, hline⟩)

/-- Of a line that is one value within the limits of reading: if it is no object, it is refused as
misshapen. If it is an object, whatever its members are, it is a request exactly if its method
stands once and is a text other than the empty one, and its id and parameters stand at most once;
otherwise a response exactly if id, result and error stand at most once; otherwise it is refused as
misshapen. Of the parts, absent ones and `null` are none, and every other value is kept; absent
parameters are `null`. -/
theorem kind_of_members {line : List UInt8} {v : Value} (read : Value.read line = .ok v) :
    ((∀ members, v ≠ .object members) → ofLine line = .error .misshapen) ∧
    ∀ members, v = .object members →
      ((∃ id method params, ofLine line = .ok (request id method params)) ↔
        StatesRequest members) ∧
      ((∃ id result error, ofLine line = .ok (response id result error)) ↔
        ¬ StatesRequest members ∧ StatesResponse members) ∧
      (ofLine line = .error .misshapen ↔
        ¬ StatesRequest members ∧ ¬ StatesResponse members) ∧
      (∀ id method params, ofLine line = .ok (request id method params) →
        Keeps "id" members id ∧ ("method", .string method) ∈ members ∧
          ∃ stated, Keeps "params" members stated ∧ params = stated.getD .null) ∧
      (∀ id result error, ofLine line = .ok (response id result error) →
        Keeps "id" members id ∧ Keeps "result" members result ∧ Keeps "error" members error) := by
  refine ⟨fun hv => ?_, ?_⟩
  · have hline := ofLine_of_read read
    cases v with
    | object members => exact absurd rfl (hv members)
    | null => exact hline
    | bool b => exact hline
    | number n => exact hline
    | string s => exact hline
    | array items => exact hline
  · rintro members rfl
    rcases ofLine_cases read with ⟨hrequest, id, method, params, hline, hkeeps⟩ |
      ⟨hrequest, hresponse, id, result, error, hline, hkeeps⟩ | ⟨hrequest, hresponse, hline⟩
    · obtain ⟨kid, hmem, -, kparams⟩ := hkeeps
      rw [hline]
      refine ⟨⟨fun _ => hrequest, fun _ => ⟨_, _, _, rfl⟩⟩, by simp [hrequest],
        by simp [hrequest], ?_, by simp⟩
      intro id' method' params' h
      cases h
      exact ⟨kid, hmem, params, kparams, rfl⟩
    · rw [hline]
      refine ⟨by simp [hrequest], ⟨fun _ => ⟨hrequest, hresponse⟩, fun _ => ⟨_, _, _, rfl⟩⟩,
        by simp [hresponse], by simp, ?_⟩
      intro id' result' error' h
      cases h
      exact hkeeps
    · rw [hline]
      simp [hrequest, hresponse]

/-- A line with blanks, a name that is escaped, another one twice, an empty method and two lots of
parameters. -/
def sampleLine : List UInt8 :=
  Ascii.bytes "\x7b \"i\\u0064\":\"sub\",\"x\":[],\"method\":\"\",\"x\":0,
    \"result\":[\x7b\"b\":1,\"a\":2,\"b\":3\x7d],\"params\":1,\"params\":null\x7d\r\n"

def sampleMembers : List (String × Value) :=
  [("id", .string "sub"), ("x", .array []), ("method", .string ""), ("x", .ofNat 0),
    ("result", .array [.object [("b", .ofNat 1), ("a", .ofNat 2), ("b", .ofNat 3)]]),
    ("params", .ofNat 1), ("params", .null)]

theorem kind_of_members_of_sampleLine :
    Value.read sampleLine = .ok (.object sampleMembers) ∧ ¬ StatesRequest sampleMembers ∧
      ∃ id result error, ofLine sampleLine = .ok (response id result error) ∧
        Keeps "id" sampleMembers id ∧ Keeps "result" sampleMembers result ∧
        Keeps "error" sampleMembers error := by
  have read : Value.read sampleLine = .ok (.object sampleMembers) := by decide +kernel
  have hrequest : ¬ StatesRequest sampleMembers := by
    rintro ⟨-, -, -, params⟩
    exact absurd params (by decide)
  have hresponse : StatesResponse sampleMembers := ⟨by decide, by decide, by decide⟩
  obtain ⟨-, hresponse_iff, -, -, hparts⟩ := (kind_of_members read).2 _ rfl
  obtain ⟨id, result, error, hline⟩ := hresponse_iff.mpr ⟨hrequest, hresponse⟩
  exact ⟨read, hrequest, id, result, error, hline, hparts id result error hline⟩

end PoolUplink.Rpc.Message
