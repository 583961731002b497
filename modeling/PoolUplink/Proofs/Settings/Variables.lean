import Mathlib.Data.List.Forall2
import PoolUplink.Proofs.Settings.Address
import PoolUplink.Settings.Variables

/-!
# What variables state

Each variable is read back from the form in which its value is written: the pools from items
between commas, the flag from its word, the seconds from their digits. So settings that variables
can state are read from them.
-/

set_option autoImplicit false
set_option relaxedAutoImplicit false

namespace PoolUplink.Settings

def stated (pools : List Endpoint) (flag : Bool) (dial handshake : UInt64) : Settings :=
  { standard with
    pools := pools, submitResponse := flag, dialSeconds := dial, handshakeSeconds := handshake }

theorem validate_stated {pools : List Endpoint} (h : pools ≠ []) (flag : Bool)
    (dial handshake : UInt64) :
    validate (stated pools flag dial handshake) = .ok (stated pools flag dial handshake) := by
  have hsome : (stated pools flag dial handshake).pools.isEmpty = false :=
    List.isEmpty_eq_false_iff.mpr h
  rw [validate, hsome]
  rfl

namespace Variables

open PoolUplink.Text

theorem splitCommas_eq_splitOn (cs : List Char) : splitCommas cs = cs.splitOn ',' := by
  induction cs with
  | nil => rfl
  | cons c cs ih =>
    have hne : cs.splitOn ',' ≠ [] := List.splitOnP_ne_nil _ _
    obtain ⟨piece, rest, hpieces⟩ := List.exists_cons_of_ne_nil hne
    have hmore : (c :: cs).splitOn ',' =
        if c = ',' then [] :: cs.splitOn ',' else (cs.splitOn ',').modifyHead (List.cons c) := by
      rw [List.splitOn, List.splitOnP_cons_eq_if_modifyHead, ← List.splitOn]
      simp only [beq_iff_eq]
    rw [splitCommas, List.foldr_cons, ← splitCommas, hmore, ih, hpieces]
    rfl

private theorem items_intercalate {listed : List String}
    (uncut : ∀ item ∈ listed, ',' ∉ item.toList)
    (unblank : ∀ item ∈ listed, Blank.trim item.toList ≠ []) :
    items (",".intercalate listed) = listed := by
  cases hlisted : listed with
  | nil => rfl
  | cons first others =>
    have hne : listed.map String.toList ≠ [] := by simp [hlisted]
    have huncut : ∀ piece ∈ listed.map String.toList, ',' ∉ piece := by
      intro piece hpiece
      obtain ⟨item, hitem, rfl⟩ := List.mem_map.mp hpiece
      exact uncut item hitem
    have hsplit : splitCommas (",".intercalate listed).toList = listed.map String.toList := by
      rw [splitCommas_eq_splitOn, String.toList_intercalate]
      exact List.splitOn_intercalate ',' huncut hne
    have hkept : (listed.map String.toList).filter (fun piece => !(Blank.trim piece).isEmpty) =
        listed.map String.toList := by
      rw [List.filter_eq_self]
      intro piece hpiece
      obtain ⟨item, hitem, rfl⟩ := List.mem_map.mp hpiece
      simpa using unblank item hitem
    have hback : (listed.map String.toList).map String.ofList = listed := by
      rw [List.map_map]
      exact List.map_id'' (fun _ => String.ofList_toList) listed
    rw [← hlisted, items, hsplit, hkept, hback]

theorem mapM_endpoint {listed : List String} {pools : List Endpoint}
    (h : List.Forall₂ (fun item e => Endpoint.ofText? item = some e) listed pools) :
    listed.mapM endpoint = .ok pools := by
  induction h with
  | nil => rfl
  | cons hitem _ ih =>
    rw [List.mapM_cons, endpoint, hitem, ih]
    rfl

private theorem readPools_intercalate {pools : List Endpoint} {listed : List String}
    (plain : ∀ e ∈ pools, e.Plain) (named : List.Forall₂ Endpoint.NamedBy pools listed) :
    readPools (",".intercalate listed) = .ok pools := by
  have hpairs : List.Forall₂ (fun item e => (',' ∉ item.toList ∧ Blank.trim item.toList ≠ []) ∧
      Endpoint.ofText? item = some e) listed pools := by
    refine List.Forall₂.flip ?_
    refine ((List.forall₂_and_left pools listed).mpr ⟨plain, named⟩).imp ?_
    rintro e item ⟨hplain, hnamed⟩
    exact ⟨⟨Endpoint.comma_not_mem_of_namedBy hplain hnamed,
      Endpoint.trim_ne_nil_of_namedBy hplain hnamed⟩, Endpoint.ofText?_of_namedBy hplain hnamed⟩
  obtain ⟨hitems, hread⟩ := (List.forall₂_and_left listed pools).mp hpairs
  have huncut := fun item h => (hitems item h).1
  have hunblank := fun item h => (hitems item h).2
  rw [readPools, items_intercalate huncut hunblank, mapM_endpoint hread]

private theorem readFlag_toString (flag : Bool) : readFlag (toString flag) = .ok flag := by
  cases flag with
  | true => decide
  | false => decide

private theorem readSeconds_text (key : String) (n : UInt64) :
    readSeconds key (Numeral.text n.toNat) = .ok n := by
  rw [readSeconds, Numeral.text, String.toList_ofList, Numeral.trim_decimal,
    Numeral.unsigned?_decimal n.toNat_lt]
  simp

structure State (lookup : String → Option String) (listed : List String) (flag : Bool)
    (dial handshake : UInt64) : Prop where
  pools : lookup pools = some (",".intercalate listed)
  submitResponse : lookup submitResponse = some (toString flag)
  dialSeconds : lookup dialSeconds = some (Numeral.text dial.toNat)
  handshakeSeconds : lookup handshakeSeconds = some (Numeral.text handshake.toNat)

theorem read_of_state {lookup : String → Option String} {pools : List Endpoint}
    {listed : List String} {flag : Bool} {dial handshake : UInt64} (some_pool : pools ≠ [])
    (plain : ∀ e ∈ pools, e.Plain) (named : List.Forall₂ Endpoint.NamedBy pools listed)
    (state : State lookup listed flag dial handshake) :
    read lookup = .ok (stated pools flag dial handshake) := by
  rw [read, state.pools, state.submitResponse, state.dialSeconds, state.handshakeSeconds]
  simp only [orStandard, readPools_intercalate plain named, readFlag_toString, readSeconds_text]
  exact validate_stated some_pool flag dial handshake

end Variables

end PoolUplink.Settings
