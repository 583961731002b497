import PoolUplink.Proofs.Settings.AddressGrammar
import PoolUplink.Proofs.Settings.Variables

/-!
# Which fault of the variables counts

Each variable is good or bad on its own, and the settings are refused for the first bad one: an
item of the pool list, then the flag, then the two time limits, and last that there are no pools.
Every assignment of texts to the variables has exactly one of these outcomes, and lists of pools
that are joined by a comma name the pools of both.
-/

set_option autoImplicit false
set_option relaxedAutoImplicit false

namespace PoolUplink.Settings.Variables

open PoolUplink.Text

/-- The items of a list are what stands between its commas and is not blank. -/
def Lists (value : String) (listed : List String) : Prop :=
  ∃ pieces : List (List Char), pieces ≠ [] ∧ (∀ piece ∈ pieces, ',' ∉ piece) ∧
    value.toList = [','].intercalate pieces ∧
    listed = (pieces.filter fun piece => piece.any fun c => !Blank.isBlank c).map String.ofList

def words : Bool → List String
  | true => ["1", "true", "yes"]
  | false => ["0", "false", "no", ""]

def StatesFlag (value : String) (flag : Bool) : Prop :=
  ∃ word ∈ words flag, Blank.Trims value.toList word.toList

def StatesSeconds (value : String) (seconds : UInt64) : Prop :=
  ∃ (core : List Char) (n : Nat), Blank.Trims value.toList core ∧ Numeral.Spells 10 core n ∧
    n < 2 ^ 64 ∧ seconds = n.toUInt64

/-- A variable gives what its text states, and the standard if it is not set. -/
inductive Gives {α : Type} (States : String → α → Prop) (standard : α) : Option String → α → Prop
  | set {value : String} {a : α} : States value a → Gives States standard (some value) a
  | unset : Gives States standard none standard

def NamesPools (lookup : String → Option String) (es : List Endpoint) : Prop :=
  ∃ listed, Gives Lists [] (lookup pools) listed ∧ List.Forall₂ Endpoint.StatedBy es listed

/-- What settings are read of the variables, or the first fault of them. -/
inductive Outcome (lookup : String → Option String) : Except Refusal Settings → Prop
  | pool {value item : String} {before behind : List String} {es : List Endpoint} :
      lookup pools = some value → Lists value (before ++ item :: behind) →
      List.Forall₂ Endpoint.StatedBy es before → (∀ e : Endpoint, ¬ e.StatedBy item) →
      Outcome lookup (.error (.invalidPool item))
  | flag {es : List Endpoint} {value : String} : NamesPools lookup es →
      lookup submitResponse = some value → (∀ flag, ¬ StatesFlag value flag) →
      Outcome lookup (.error (.invalidValue submitResponse value))
  | dial {es : List Endpoint} {flag : Bool} {value : String} : NamesPools lookup es →
      Gives StatesFlag false (lookup submitResponse) flag →
      lookup dialSeconds = some value → (∀ n, ¬ StatesSeconds value n) →
      Outcome lookup (.error (.invalidValue dialSeconds value))
  | handshake {es : List Endpoint} {flag : Bool} {dial : UInt64} {value : String} :
      NamesPools lookup es → Gives StatesFlag false (lookup submitResponse) flag →
      Gives StatesSeconds 15 (lookup dialSeconds) dial →
      lookup handshakeSeconds = some value → (∀ n, ¬ StatesSeconds value n) →
      Outcome lookup (.error (.invalidValue handshakeSeconds value))
  | noPools {flag : Bool} {dial handshake : UInt64} : NamesPools lookup [] →
      Gives StatesFlag false (lookup submitResponse) flag →
      Gives StatesSeconds 15 (lookup dialSeconds) dial →
      Gives StatesSeconds 30 (lookup handshakeSeconds) handshake →
      Outcome lookup (.error .noPools)
  | settings {es : List Endpoint} {flag : Bool} {dial handshake : UInt64} :
      NamesPools lookup es → es ≠ [] →
      Gives StatesFlag false (lookup submitResponse) flag →
      Gives StatesSeconds 15 (lookup dialSeconds) dial →
      Gives StatesSeconds 30 (lookup handshakeSeconds) handshake →
      Outcome lookup (.ok (stated es flag dial handshake))

section Lists

private theorem comma_not_mem_splitCommas {cs piece : List Char} (h : piece ∈ splitCommas cs) :
    ',' ∉ piece := by
  induction cs generalizing piece with
  | nil =>
    obtain rfl := List.mem_singleton.mp h
    exact List.not_mem_nil
  | cons c cs ih =>
    rw [splitCommas, List.foldr_cons, ← splitCommas] at h
    split at h
    · rcases List.mem_cons.mp h with rfl | h
      · exact List.not_mem_nil
      · exact ih h
    · rename_i hc
      split at h
      · obtain rfl := List.mem_singleton.mp h
        simpa using Ne.symm hc
      · rename_i first rest hsplit
        rw [hsplit] at ih
        rcases List.mem_cons.mp h with rfl | h
        · have hfirst : ',' ∉ first := ih List.mem_cons_self
          simpa [Ne.symm hc] using hfirst
        · exact ih (List.mem_cons_of_mem _ h)

private theorem lists_iff {value : String} {listed : List String} :
    Lists value listed ↔ items value = listed := by
  have hkept : (fun piece : List Char => !(Blank.trim piece).isEmpty) =
      fun piece => piece.any fun c => !Blank.isBlank c := by
    funext piece
    rw [Bool.eq_iff_iff]
    simp [Blank.trim_eq_nil_iff]
  rw [items, hkept]
  constructor
  · rintro ⟨pieces, hne, hcomma, hvalue, rfl⟩
    rw [hvalue, splitCommas_eq_splitOn, List.splitOn_intercalate ',' hcomma hne]
  · rintro rfl
    refine ⟨splitCommas value.toList, ?_, ?_, ?_, rfl⟩
    · rw [splitCommas_eq_splitOn]
      exact List.splitOn_ne_nil ',' _
    · intro piece hpiece
      exact comma_not_mem_splitCommas hpiece
    · rw [splitCommas_eq_splitOn, List.intercalate_splitOn]

private theorem items_append (a b : String) : items (a ++ "," ++ b) = items a ++ items b := by
  have hvalue : (a ++ "," ++ b).toList = a.toList ++ ',' :: b.toList := by simp
  have hsplit : splitCommas (a ++ "," ++ b).toList =
      splitCommas a.toList ++ splitCommas b.toList := by
    rw [hvalue, splitCommas_eq_splitOn, splitCommas_eq_splitOn, splitCommas_eq_splitOn]
    exact List.splitOnP_append_cons _ _ (by decide)
  rw [items, hsplit, List.filter_append, List.map_append, items, items]

private theorem mapM_of_stated {listed : List String} {es : List Endpoint}
    (h : List.Forall₂ Endpoint.StatedBy es listed) : listed.mapM endpoint = .ok es := by
  apply mapM_endpoint
  exact h.flip.imp fun item e he => Endpoint.statedBy_iff.mp he

private theorem mapM_of_unstated {before behind : List String} {item : String} {es : List Endpoint}
    (h : List.Forall₂ Endpoint.StatedBy es before) (unstated : ∀ e : Endpoint, ¬ e.StatedBy item) :
    (before ++ item :: behind).mapM endpoint = .error (.invalidPool item) := by
  have hitem : endpoint item = .error (.invalidPool item) := (address_grammar item).2.1 unstated
  rw [List.mapM_append, mapM_of_stated h, List.mapM_cons, hitem]
  rfl

private theorem stated_or_unstated (listed : List String) :
    (∃ es, List.Forall₂ Endpoint.StatedBy es listed) ∨
      ∃ before item behind es, listed = before ++ item :: behind ∧
        List.Forall₂ Endpoint.StatedBy es before ∧ ∀ e : Endpoint, ¬ e.StatedBy item := by
  induction listed with
  | nil => exact .inl ⟨[], .nil⟩
  | cons item listed ih =>
    by_cases hitem : ∃ e : Endpoint, e.StatedBy item
    · obtain ⟨e, he⟩ := hitem
      rcases ih with ⟨es, hes⟩ | ⟨before, other, behind, es, rfl, hes, hother⟩
      · exact .inl ⟨e :: es, .cons he hes⟩
      · exact .inr ⟨item :: before, other, behind, e :: es, rfl, .cons he hes, hother⟩
    · exact .inr ⟨[], item, listed, [], rfl, .nil, not_exists.mp hitem⟩

end Lists

section Readers

variable {α : Type} {States : String → α → Prop} {standard : α} {given : Option String}

private theorem Gives.exists_text {a : α} (h : Gives States standard given a)
    (other : a ≠ standard) : ∃ value, given = some value ∧ States value a := by
  cases h with
  | set hstates => exact ⟨_, rfl, hstates⟩
  | unset => exact absurd rfl other

/-- A variable is read as what its text states, and refused with its text if that states
nothing. -/
structure Decides (read : String → Except Refusal α) (States : String → α → Prop)
    (key : String) : Prop where
  reads {value : String} {a : α} : States value a → read value = .ok a
  refuses {value : String} : (∀ a, ¬ States value a) → read value = .error (.invalidValue key value)

private theorem Decides.orStandard {read : String → Except Refusal α} {key : String} {a : α}
    (h : Decides read States key) (gives : Gives States standard given a) :
    Variables.orStandard standard read given = .ok a := by
  cases gives with
  | set hstates => exact h.reads hstates
  | unset => rfl

private theorem Decides.orStandard_refused {read : String → Except Refusal α} {key value : String}
    (h : Decides read States key) (hvalue : given = some value) (unstated : ∀ a, ¬ States value a) :
    Variables.orStandard standard read given = .error (.invalidValue key value) := by
  rw [hvalue]
  exact h.refuses unstated

private theorem gives_or_refused (States : String → α → Prop) (standard : α)
    (given : Option String) :
    (∃ a, Gives States standard given a) ∨ ∃ value, given = some value ∧ ∀ a, ¬ States value a := by
  cases given with
  | none => exact .inl ⟨standard, .unset⟩
  | some value =>
    by_cases hvalue : ∃ a, States value a
    · obtain ⟨a, ha⟩ := hvalue
      exact .inl ⟨a, .set ha⟩
    · exact .inr ⟨value, rfl, not_exists.mp hvalue⟩

private theorem readFlag_eq (value : String) :
    readFlag value =
      if String.ofList (Blank.trim value.toList) ∈ words true then .ok true
      else if String.ofList (Blank.trim value.toList) ∈ words false then .ok false
      else .error (.invalidValue submitResponse value) := by
  simp only [← List.contains_iff_mem]
  rfl

private theorem flag_decides : Decides readFlag StatesFlag submitResponse where
  reads := by
    rintro value flag ⟨word, hword, htrim⟩
    rw [readFlag_eq, Blank.trims_iff.mp htrim, String.ofList_toList]
    cases flag with
    | true => rw [if_pos hword]
    | false =>
      have hother : ∀ word ∈ words false, word ∉ words true := by decide
      rw [if_neg (hother word hword), if_pos hword]
  refuses := by
    intro value unstated
    have hnone (flag : Bool) : String.ofList (Blank.trim value.toList) ∉ words flag := by
      intro hword
      apply unstated flag
      refine ⟨_, hword, ?_⟩
      rw [String.toList_ofList]
      exact Blank.trims_trim _
    rw [readFlag_eq, if_neg (hnone true), if_neg (hnone false)]

private theorem seconds_decides (key : String) : Decides (readSeconds key) StatesSeconds key where
  reads := by
    rintro value _ ⟨core, n, htrim, hcore, hn, rfl⟩
    have hread : Numeral.unsigned? 10 UInt64.size core = some n :=
      (Numeral.unsigned?_eq_some_iff (by decide)).mpr ⟨hcore, hn⟩
    rw [readSeconds, Blank.trims_iff.mp htrim, hread]
  refuses := by
    intro value unstated
    unfold readSeconds
    split
    · rename_i n hread
      obtain ⟨hcore, hn⟩ := (Numeral.unsigned?_eq_some_iff (by decide)).mp hread
      exact absurd ⟨_, n, Blank.trims_trim _, hcore, hn, rfl⟩ (unstated n.toUInt64)
    · rfl

end Readers

section Read

variable {lookup : String → Option String}

private theorem readPools_of_names {es : List Endpoint} (h : NamesPools lookup es) :
    orStandard standard.pools readPools (lookup pools) = .ok es := by
  obtain ⟨listed, hlisted, hes⟩ := h
  generalize lookup pools = given at hlisted
  cases hlisted with
  | set hlists =>
    obtain rfl := lists_iff.mp hlists
    exact mapM_of_stated hes
  | unset =>
    cases hes
    rfl

private theorem readPools_of_unstated {value item : String} {before behind : List String}
    {es : List Endpoint} (hlists : Lists value (before ++ item :: behind))
    (hes : List.Forall₂ Endpoint.StatedBy es before)
    (unstated : ∀ e : Endpoint, ¬ e.StatedBy item) :
    readPools value = .error (.invalidPool item) := by
  rw [readPools, lists_iff.mp hlists, mapM_of_unstated hes unstated]

private theorem readFlag_of_gives {flag : Bool}
    (h : Gives StatesFlag false (lookup submitResponse) flag) :
    orStandard standard.submitResponse readFlag (lookup submitResponse) = .ok flag :=
  flag_decides.orStandard h

private theorem readDial_of_gives {n : UInt64} (h : Gives StatesSeconds 15 (lookup dialSeconds) n) :
    orStandard standard.dialSeconds (readSeconds dialSeconds) (lookup dialSeconds) = .ok n :=
  (seconds_decides dialSeconds).orStandard h

private theorem readHandshake_of_gives {n : UInt64}
    (h : Gives StatesSeconds 30 (lookup handshakeSeconds) n) :
    orStandard standard.handshakeSeconds (readSeconds handshakeSeconds) (lookup handshakeSeconds) =
      .ok n :=
  (seconds_decides handshakeSeconds).orStandard h

private theorem read_of_gives {es : List Endpoint} {flag : Bool} {dial handshake : UInt64}
    (hpools : NamesPools lookup es) (hflag : Gives StatesFlag false (lookup submitResponse) flag)
    (hdial : Gives StatesSeconds 15 (lookup dialSeconds) dial)
    (hhandshake : Gives StatesSeconds 30 (lookup handshakeSeconds) handshake) :
    read lookup = validate (stated es flag dial handshake) := by
  rw [read, readPools_of_names hpools, readFlag_of_gives hflag, readDial_of_gives hdial,
    readHandshake_of_gives hhandshake]
  rfl

private theorem read_of_outcome {result : Except Refusal Settings} (h : Outcome lookup result) :
    read lookup = result := by
  cases h with
  | pool hvalue hlists hes unstated =>
    rw [read, hvalue, orStandard, readPools_of_unstated hlists hes unstated]
    rfl
  | flag hpools hvalue unstated =>
    rw [read, readPools_of_names hpools, flag_decides.orStandard_refused hvalue unstated]
    rfl
  | dial hpools hflag hvalue unstated =>
    rw [read, readPools_of_names hpools, readFlag_of_gives hflag,
      (seconds_decides dialSeconds).orStandard_refused hvalue unstated]
    rfl
  | handshake hpools hflag hdial hvalue unstated =>
    rw [read, readPools_of_names hpools, readFlag_of_gives hflag, readDial_of_gives hdial,
      (seconds_decides handshakeSeconds).orStandard_refused hvalue unstated]
    rfl
  | noPools hpools hflag hdial hhandshake =>
    rw [read_of_gives hpools hflag hdial hhandshake]
    rfl
  | settings hpools hsome hflag hdial hhandshake =>
    rw [read_of_gives hpools hflag hdial hhandshake, validate_stated hsome]

theorem exists_outcome (lookup : String → Option String) : ∃ result, Outcome lookup result := by
  rcases gives_or_refused Lists [] (lookup pools) with ⟨listed, hlisted⟩ | ⟨value, -, hvalue⟩
  swap
  · exact absurd (lists_iff.mpr rfl) (hvalue (items value))
  rcases stated_or_unstated listed with ⟨es, hes⟩ | ⟨before, item, behind, es, rfl, hes, hitem⟩
  swap
  · obtain ⟨value, hvalue, hlists⟩ := hlisted.exists_text (by simp)
    exact ⟨_, .pool hvalue hlists hes hitem⟩
  have hpools : NamesPools lookup es := ⟨listed, hlisted, hes⟩
  rcases gives_or_refused StatesFlag false (lookup submitResponse) with ⟨flag, hflag⟩ | ⟨_, h, bad⟩
  swap
  · exact ⟨_, .flag hpools h bad⟩
  rcases gives_or_refused StatesSeconds 15 (lookup dialSeconds) with ⟨dial, hdial⟩ | ⟨_, h, bad⟩
  swap
  · exact ⟨_, .dial hpools hflag h bad⟩
  rcases gives_or_refused StatesSeconds 30 (lookup handshakeSeconds) with
    ⟨handshake, hhandshake⟩ | ⟨_, h, bad⟩
  swap
  · exact ⟨_, .handshake hpools hflag hdial h bad⟩
  cases es with
  | nil => exact ⟨_, .noPools hpools hflag hdial hhandshake⟩
  | cons e es => exact ⟨_, .settings hpools (List.cons_ne_nil e es) hflag hdial hhandshake⟩

private theorem exists_of_read {s : Settings} (h : read lookup = .ok s) :
    ∃ es flag dial handshake, s = stated es flag dial handshake ∧ es ≠ [] ∧
      NamesPools lookup es ∧ Gives StatesFlag false (lookup submitResponse) flag ∧
      Gives StatesSeconds 15 (lookup dialSeconds) dial ∧
      Gives StatesSeconds 30 (lookup handshakeSeconds) handshake := by
  obtain ⟨result, houtcome⟩ := exists_outcome lookup
  obtain rfl := (read_of_outcome houtcome).symm.trans h
  cases houtcome with
  | settings hpools hsome hflag hdial hhandshake =>
    exact ⟨_, _, _, _, rfl, hsome, hpools, hflag, hdial, hhandshake⟩

end Read

def relist (lookup : String → Option String) (list : String) : String → Option String :=
  fun key => if key = pools then some list else lookup key

private theorem names_relist_append {lookup : String → Option String} {a b : String}
    {es others : List Endpoint} (ha : NamesPools (relist lookup a) es)
    (hb : NamesPools (relist lookup b) others) :
    NamesPools (relist lookup (a ++ "," ++ b)) (es ++ others) := by
  obtain ⟨listed, hlisted, hes⟩ := ha
  obtain ⟨more, hmore, hothers⟩ := hb
  have hgiven (list : String) : relist lookup list pools = some list := if_pos rfl
  rw [hgiven] at hlisted hmore
  cases hlisted with
  | set hlists =>
    cases hmore with
    | set hmore =>
      refine ⟨listed ++ more, ?_, List.rel_append hes hothers⟩
      rw [hgiven]
      apply Gives.set
      rw [lists_iff, items_append, lists_iff.mp hlists, lists_iff.mp hmore]

/-- Whatever texts the variables have, what is read of them is their outcome: the settings that
they state with the standard for those not set, or the first fault of all. Lists of pools that are
joined by a comma name the pools of the one and then those of the other. -/
theorem outcome_of_variables (lookup : String → Option String) :
    (∀ result, read lookup = result ↔ Outcome lookup result) ∧
      ∀ (a b : String) (s t : Settings), read (relist lookup a) = .ok s →
        read (relist lookup b) = .ok t →
          read (relist lookup (a ++ "," ++ b)) = .ok { s with pools := s.pools ++ t.pools } := by
  constructor
  · intro result
    constructor
    · rintro rfl
      obtain ⟨result, houtcome⟩ := exists_outcome lookup
      rwa [read_of_outcome houtcome]
    · exact read_of_outcome
  · intro a b s t ha hb
    obtain ⟨es, flag, dial, handshake, rfl, hsome, hpools, hflag, hdial, hhandshake⟩ :=
      exists_of_read ha
    obtain ⟨others, _, _, _, rfl, -, hothers, -, -, -⟩ := exists_of_read hb
    have hnames := names_relist_append hpools hothers
    have hboth : es ++ others ≠ [] := List.append_ne_nil_of_left_ne_nil hsome others
    exact read_of_outcome (.settings hnames hboth hflag hdial hhandshake)

def sampleFaults : String → Option String
  | "AGENT_POOLS" => some " ,a:1\t,\u3000"
  | "AGENT_SUBMIT_RESPONSE_FROM_SERVER" => some " TRUE"
  | "AGENT_DIAL_TIMEOUT_SECS" => some "18446744073709551616"
  | _ => none

/-- The flag is looked at before the time limits, and keeps the blank in front of it. -/
theorem outcome_of_sampleFaults :
    read sampleFaults = .error (.invalidValue submitResponse " TRUE") ∧
      read (relist (fun _ => none) ("a:1" ++ "," ++ " ,tcp://b:+2")) =
        .ok { standard with pools := [⟨"a", 1⟩, ⟨"b", 2⟩] } := by
  constructor
  · apply ((outcome_of_variables sampleFaults).1 _).mpr
    have hlists : Lists " ,a:1\t,\u3000" ["a:1\t"] := lists_iff.mpr (by decide +kernel)
    have hitem : Endpoint.StatedBy ⟨"a", 1⟩ "a:1\t" := Endpoint.statedBy_iff.mpr (by decide +kernel)
    have hpools : NamesPools sampleFaults [⟨"a", 1⟩] := ⟨_, .set hlists, .cons hitem .nil⟩
    refine .flag hpools rfl ?_
    intro flag hflag
    have hread : readFlag " TRUE" = .error (.invalidValue submitResponse " TRUE") := by
      decide +kernel
    rw [flag_decides.reads hflag] at hread
    cases hread
  · have ha : read (relist (fun _ => none) "a:1") = .ok { standard with pools := [⟨"a", 1⟩] } := by
      decide +kernel
    have hb : read (relist (fun _ => none) " ,tcp://b:+2") =
        .ok { standard with pools := [⟨"b", 2⟩] } := by
      decide +kernel
    exact (outcome_of_variables fun _ => none).2 _ _ _ _ ha hb

end PoolUplink.Settings.Variables
