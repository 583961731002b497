import PoolUplink.Proofs.Binary64.Whole
import PoolUplink.Proofs.Text.Spelling
import PoolUplink.Uplink.Response

/-!
# What a result grants

A result offers a subscription if it has the shape of one: a session id in hexadecimal and a number
of bytes, whatever that is. An offer of enough bytes is granted as it stands, one of too few is
refused with their number, and any other result is refused for its shape.
-/

set_option autoImplicit false
set_option relaxedAutoImplicit false

namespace PoolUplink.Subscription

open PoolUplink.Json (Value Number)

/-- A result that offers a session id and a number of bytes: an array with a text that is a
hexadecimal numeral of the id at its second place, and the number at its third. -/
def Offers (result : Option Value) (id : UInt32) (n : Number) : Prop :=
  ∃ (first : Value) (text : String) (rest : List Value),
    result = some (.array (first :: .string text :: .number n :: rest)) ∧
      Text.Numeral.Spells 16 text.toList id.toNat

/-- The whole number that a number amounts to: what its double is worth, taken toward zero and kept
within 64 bits. -/
def amount (n : Number) : Int :=
  max (-2 ^ 63) (min (2 ^ 63 - 1) (Binary64.towardZero n.toDouble.value))

theorem widthOf_eq (n : Number) : widthOf n = amount n := by
  have hmin : Int64.minValue.toInt = -2 ^ 63 := by decide
  have hmax : Int64.maxValue.toInt = 2 ^ 63 - 1 := by decide
  rw [widthOf, amount, Binary64.truncate_eq, hmin, hmax]

theorem amount_whole {w : Nat} (h : w ≤ 2 ^ 53) (exact : Json.Exact w) :
    amount (.whole w exact) = w := by
  have hvalue : (Number.whole w exact).toDouble.value = w := Binary64.value_ofNat h
  rw [amount, hvalue, Binary64.towardZero_of_nonneg (by positivity), Int.floor_natCast]
  omega

theorem Offers.unique {result : Option Value} {id id' : UInt32} {n n' : Number}
    (h : Offers result id n) (h' : Offers result id' n') : id = id' ∧ n = n' := by
  obtain ⟨first, text, rest, rfl, hid⟩ := h
  obtain ⟨first', text', rest', heq, hid'⟩ := h'
  injection heq with heq
  injection heq with heq
  obtain ⟨-, heq⟩ := List.cons_eq_cons.mp heq
  obtain ⟨htext, heq⟩ := List.cons_eq_cons.mp heq
  obtain ⟨hn, -⟩ := List.cons_eq_cons.mp heq
  injection htext with htext
  injection hn with hn
  subst htext
  exact ⟨UInt32.toNat_inj.mp (hid.unique (by decide) hid'), hn⟩

private theorem ofResult_of_offers {result : Option Value} {id : UInt32} {n : Number}
    (h : Offers result id n) (error : Option Value) :
    ofResult result error =
      if amount n < 6 then .error (.extranonceTooShort (amount n) 6)
      else .ok ⟨id, (amount n).toNat⟩ := by
  obtain ⟨first, text, rest, rfl, hid⟩ := h
  have hword : id.toNat.toUInt32 = id := UInt32.ofNat_toNat
  simp only [ofResult, Option.bind_some, Value.items?, Value.string?, Value.number?,
    hid.unsigned?_word, widthOf_eq, hword]
  rfl

private theorem ofResult_of_no_offer {result : Option Value} (h : ∀ id n, ¬ Offers result id n)
    (error : Option Value) : ∃ what, ofResult result error = .error (fault what error) := by
  unfold ofResult
  split
  · exact ⟨_, rfl⟩
  rename_i items hitems
  split
  · rename_i first idItem widthItem rest
    split
    · exact ⟨_, rfl⟩
    rename_i text htext
    split
    · exact ⟨_, rfl⟩
    rename_i id hid
    split
    · exact ⟨_, rfl⟩
    rename_i n hn
    -- nothing is wrong with the shape: this is an offer
    obtain ⟨hspells, hlt⟩ := (Text.Numeral.unsigned?_eq_some_iff (by decide)).mp hid
    refine absurd ⟨first, text, rest, ?_, ?_⟩ (h id.toUInt32 n)
    · obtain ⟨v, rfl, hv⟩ := Option.bind_eq_some_iff.mp hitems
      cases v <;> cases hv
      cases idItem <;> cases htext
      cases widthItem <;> cases hn
      rfl
    · rw [show id.toUInt32.toNat = id from Nat.mod_eq_of_lt hlt]
      exact hspells
  · exact ⟨_, rfl⟩

theorem ofResult_cases (result error : Option Value) :
    (∃ id n, Offers result id n ∧ 6 ≤ amount n ∧
        ofResult result error = .ok ⟨id, (amount n).toNat⟩) ∨
      (∃ id n, Offers result id n ∧ amount n < 6 ∧
        ofResult result error = .error (.extranonceTooShort (amount n) 6)) ∨
      (∀ id n, ¬ Offers result id n) ∧
        ∃ what, ofResult result error = .error (fault what error) := by
  by_cases offered : ∃ id n, Offers result id n
  · obtain ⟨id, n, offers⟩ := offered
    have hread := ofResult_of_offers offers error
    by_cases short : amount n < 6
    · rw [if_pos short] at hread
      exact Or.inr (Or.inl ⟨id, n, offers, short, hread⟩)
    · rw [if_neg short] at hread
      exact Or.inl ⟨id, n, offers, Int.not_lt.mp short, hread⟩
  · simp only [not_exists] at offered
    exact Or.inr (Or.inr ⟨offered, ofResult_of_no_offer offered error⟩)

theorem ofResult_eq_ok_iff {result error : Option Value} {s : Subscription} :
    ofResult result error = .ok s ↔
      ∃ id n, Offers result id n ∧ 6 ≤ amount n ∧ s = ⟨id, (amount n).toNat⟩ := by
  constructor
  · intro h
    rcases ofResult_cases result error with ⟨id, n, offers, enough, hread⟩ | ⟨_, _, -, -, hread⟩ |
      ⟨-, what, hread⟩
    · exact ⟨id, n, offers, enough, Except.ok.inj (h.symm.trans hread)⟩
    · cases h.symm.trans hread
    · cases h.symm.trans hread
  · rintro ⟨id, n, offers, enough, rfl⟩
    rw [ofResult_of_offers offers, if_neg (Int.not_lt.mpr enough)]

theorem ofResult_eq_short_iff {result error : Option Value} {size : Int} {least : Nat} :
    ofResult result error = .error (.extranonceTooShort size least) ↔
      least = 6 ∧ size < 6 ∧ ∃ id n, Offers result id n ∧ size = amount n := by
  constructor
  · intro h
    rcases ofResult_cases result error with ⟨_, _, -, -, hread⟩ | ⟨id, n, offers, short, hread⟩ |
      ⟨-, what, hread⟩
    · cases h.symm.trans hread
    · cases h.symm.trans hread
      exact ⟨rfl, short, id, n, offers, rfl⟩
    · cases h.symm.trans hread
  · rintro ⟨rfl, short, id, n, offers, rfl⟩
    rw [ofResult_of_offers offers, if_pos short]

theorem fault_of_ofResult {result error : Option Value} {f : Fault}
    (h : ofResult result error = .error f) :
    (∃ reason, f = .subscriptionFailed reason) ∨ ∃ size, f = .extranonceTooShort size 6 := by
  rcases ofResult_cases result error with ⟨_, _, -, -, hread⟩ | ⟨_, n, -, -, hread⟩ |
    ⟨-, what, hread⟩
  · cases h.symm.trans hread
  · cases h.symm.trans hread
    exact Or.inr ⟨_, rfl⟩
  · cases h.symm.trans hread
    exact Or.inl ⟨_, rfl⟩

theorem exists_fault_iff {result error : Option Value} :
    (∃ what, ofResult result error = .error (fault what error)) ↔
      ∀ id n, ¬ Offers result id n := by
  constructor
  · rintro ⟨what, h⟩ id n offers
    rw [ofResult_of_offers offers] at h
    split at h <;> cases h
  · exact fun h => ofResult_of_no_offer h error

end PoolUplink.Subscription
