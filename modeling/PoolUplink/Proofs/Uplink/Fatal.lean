import PoolUplink.Proofs.Uplink.Grant
import PoolUplink.Proofs.Uplink.Notice
import PoolUplink.Proofs.Wire.Units

/-!
# Answers and fatal units

Which units of a stream answer an exchange, and which of them end a handshake in failure, said of
the message on the line. Both are read off the notice of an item.
-/

set_option autoImplicit false
set_option relaxedAutoImplicit false

namespace PoolUplink

open PoolUplink.Json (Value)
open PoolUplink.Rpc (Message)
open PoolUplink.Rpc.Setup (Exchange)
open PoolUplink.Wire (Item Reading)

/-- A result that grants a subscription: an array with a session id in hexadecimal at its second
place and enough extranonce bytes at its third. -/
def Subscription.Acceptable (result : Option Value) : Prop :=
  ∃ (first : Value) (id : String) (width : Json.Number) (rest : List Value) (sessionId : Nat),
    result = some (.array (first :: .string id :: .number width :: rest)) ∧
      Text.Numeral.unsigned? 16 UInt32.size id.toList = some sessionId ∧
      (Subscription.leastWidth : Int) ≤ Subscription.widthOf width

private theorem Subscription.ofResult_ok_iff (result error : Option Value) :
    (∃ s, Subscription.ofResult result error = .ok s) ↔ Subscription.Acceptable result := by
  constructor
  · rintro ⟨s, hs⟩
    obtain ⟨id, n, ⟨first, text, rest, hresult, hid⟩, enough, -⟩ := ofResult_eq_ok_iff.mp hs
    refine ⟨first, text, n, rest, id.toNat, hresult, hid.unsigned?_word, ?_⟩
    rw [widthOf_eq]
    exact enough
  · rintro ⟨first, id, width, rest, sessionId, rfl, hsession, hleast⟩
    refine ⟨⟨sessionId.toUInt32, (widthOf width).toNat⟩, ?_⟩
    simp only [Subscription.ofResult, Option.bind_some, Value.items?, Value.string?,
      Value.number?, hsession]
    rw [if_neg (Int.not_lt.mpr hleast)]

def Answers (e : Exchange) (unit : Reading Item) : Prop :=
  ∃ (bytes : List UInt8) (result error : Option Value), unit = .got (.line bytes) ∧
    Message.ofLine bytes = .ok (.response (some (.string e.id)) result error)

/-- A unit that a handshake does not survive. -/
inductive Fatal : Reading Item → Prop
  | failed (fault : Fault) : Fatal (.failed fault)
  | waiting : Fatal .waiting
  | unsubscribed {bytes : List UInt8} {result error : Option Value} :
      Message.ofLine bytes = .ok (.response (some (.string Exchange.subscribe.id)) result error) →
      ¬ Subscription.Acceptable result → Fatal (.got (.line bytes))
  | unauthorized {bytes : List UInt8} {result error : Option Value} :
      Message.ofLine bytes = .ok (.response (some (.string Exchange.authorize.id)) result error) →
      result ≠ some (.bool true) → Fatal (.got (.line bytes))

theorem Rpc.Setup.Exchange.ofId?_eq_some {id : String} {e : Exchange} :
    Exchange.ofId? id = some e ↔ id = e.id := by
  constructor
  · intro h
    have hb := List.find?_some h
    exact (beq_iff_eq.mp hb).symm
  · rintro rfl
    cases e <;> decide

theorem exchange_of_id {id : Option Value} {e : Exchange} :
    (id.bind Value.string?).bind Exchange.ofId? = some e ↔ id = some (.string e.id) := by
  constructor
  · intro h
    obtain ⟨text, ht, he⟩ := Option.bind_eq_some_iff.mp h
    obtain ⟨v, rfl, hv⟩ := Option.bind_eq_some_iff.mp ht
    obtain rfl := Exchange.ofId?_eq_some.mp he
    cases v <;> cases hv
    rfl
  · rintro rfl
    exact Exchange.ofId?_eq_some.mpr rfl

private theorem Uplink.isTrue_iff {result : Option Value} :
    isTrue result = true ↔ result = some (.bool true) := by
  unfold isTrue
  split
  · exact ⟨fun _ => rfl, fun _ => rfl⟩
  · rename_i hne
    exact ⟨fun h => absurd h Bool.false_ne_true, fun h => absurd h hne⟩

namespace Notice

theorem ofMessage_response {id result error : Option Value} {e : Exchange}
    (h : id = some (.string e.id)) :
    ofMessage (.response id result error) = ofExchange e result error := by
  simp only [ofMessage, exchange_of_id.mpr h]

theorem ofItem_response {bytes : List UInt8} {result error : Option Value} {e : Exchange}
    (h : Message.ofLine bytes = .ok (.response (some (.string e.id)) result error)) :
    ofItem (.line bytes) = ofExchange e result error := by
  simp only [ofItem, h]
  exact ofMessage_response rfl

theorem ofExchange_eq_ok_iff {e : Exchange} {result error : Option Value} {n : Notice} :
    ofExchange e result error = .ok n ↔
      (e = .subscribe ∧ ∃ s, Subscription.ofResult result error = .ok s ∧ n = granted s) ∨
        (e = .configure ∧ n = configured) ∨
        (e = .features ∧ n = featured (Features.ofResult result).1) ∨
        (e = .authorize ∧ result = some (.bool true) ∧ n = authorized) := by
  cases e with
  | subscribe =>
    simp only [ofExchange]
    cases Subscription.ofResult result error <;> simp [Except.map, eq_comm]
  | configure => simp [ofExchange, eq_comm]
  | features => simp [ofExchange, eq_comm]
  | authorize =>
    simp only [ofExchange, Uplink.isTrue_iff]
    by_cases granted : result = some (.bool true)
    · simp [granted, eq_comm]
    · simp [granted]

theorem answer?_of_ofExchange {e : Exchange} {result error : Option Value} {n : Notice}
    (h : ofExchange e result error = .ok n) : n.answer? = some e := by
  rcases ofExchange_eq_ok_iff.mp h with
    ⟨rfl, s, -, rfl⟩ | ⟨rfl, rfl⟩ | ⟨rfl, rfl⟩ | ⟨rfl, -, rfl⟩ <;> rfl

theorem ofExchange_eq_error_iff {e : Exchange} {result error : Option Value} {fault : Fault} :
    ofExchange e result error = .error fault ↔
      (e = .subscribe ∧ Subscription.ofResult result error = .error fault) ∨
        (e = .authorize ∧ result ≠ some (.bool true) ∧
          fault = .authorizationFailed ("result: " ++ Json.Inspect.text result ++
            ", pool error: " ++ Json.Inspect.text error)) := by
  cases e with
  | subscribe =>
    simp only [ofExchange]
    cases Subscription.ofResult result error <;> simp [Except.map]
  | configure => simp [ofExchange]
  | features => simp [ofExchange]
  | authorize =>
    simp only [ofExchange, Uplink.isTrue_iff]
    by_cases granted : result = some (.bool true)
    · simp [granted]
    · simp [granted, eq_comm]

theorem ofItem_eq_error_iff {item : Item} {fault : Fault} :
    ofItem item = .error fault ↔ ∃ bytes e result error, item = .line bytes ∧
      Message.ofLine bytes = .ok (.response (some (.string e.id)) result error) ∧
      ofExchange e result error = .error fault := by
  constructor
  · intro h
    cases item with
    | frame header => cases h
    | line bytes =>
      simp only [ofItem] at h
      split at h
      · rename_i m hm
        cases m with
        | request id method params => cases h
        | response id result error =>
          simp only [ofMessage] at h
          split at h
          · rename_i e he
            rw [exchange_of_id.mp he] at hm
            exact ⟨bytes, e, result, error, rfl, hm, h⟩
          · cases h
      · cases h
  · rintro ⟨bytes, e, result, error, rfl, hm, h⟩
    rw [ofItem_response hm, h]

private theorem answer?_ofRequest (method : String) (params : Value) :
    (ofRequest method params).answer? = none := by
  unfold ofRequest
  split
  · cases VersionMask.ofParams? params <;> rfl
  · rfl

end Notice

private theorem answers_response {bytes : List UInt8} {id result error : Option Value}
    (h : Message.ofLine bytes = .ok (.response id result error)) (e : Exchange) :
    Answers e (.got (.line bytes)) ↔ (id.bind Value.string?).bind Exchange.ofId? = some e := by
  rw [exchange_of_id]
  constructor
  · rintro ⟨bytes', result', error', hu, hm⟩
    injection hu with hu
    injection hu with hu
    rw [← hu, h] at hm
    injection hm with hm
    injection hm
  · intro hid
    exact ⟨bytes, result, error, rfl, hid ▸ h⟩

theorem ofItem_of_answers {e : Exchange} {item : Item} (h : Answers e (.got item)) :
    ∃ result error, Notice.ofItem item = Notice.ofExchange e result error := by
  obtain ⟨bytes, result, error, hu, hm⟩ := h
  cases hu
  exact ⟨result, error, Notice.ofItem_response hm⟩

theorem answers_iff {item : Item} {n : Notice} (h : Notice.ofItem item = .ok n) (e : Exchange) :
    Answers e (.got item) ↔ n.answer? = some e := by
  cases item with
  | frame header =>
    cases h
    constructor
    · rintro ⟨bytes, result, error, hu, -⟩
      cases hu
    · intro ha
      cases ha
  | line bytes =>
    -- of a line that is no response, both sides are false
    have unanswered (hno : ∀ id result error,
        Message.ofLine bytes ≠ .ok (.response id result error)) (hn : n.answer? = none) :
        Answers e (.got (.line bytes)) ↔ n.answer? = some e := by
      rw [hn]
      constructor
      · rintro ⟨bytes', result, error, hu, hm⟩
        cases hu
        exact absurd hm (hno _ _ _)
      · intro ha
        cases ha
    cases hm : Message.ofLine bytes with
    | error fault =>
      simp only [Notice.ofItem, hm] at h
      cases h
      exact unanswered (by simp [hm]) rfl
    | ok m =>
      simp only [Notice.ofItem, hm] at h
      cases m with
      | request id method params =>
        cases h
        exact unanswered (by simp [hm]) (Notice.answer?_ofRequest method params)
      | response id result error =>
        rw [answers_response hm e]
        simp only [Notice.ofMessage] at h
        split at h
        · rename_i e' he
          rw [he, Notice.answer?_of_ofExchange h]
        · rename_i he
          cases h
          rw [he]
          simp [Notice.answer?]

theorem fatal_iff (item : Item) :
    Fatal (.got item) ↔ ∃ fault, Notice.ofItem item = .error fault := by
  constructor
  · intro h
    cases h with
    | @unsubscribed bytes result error hm ha =>
      cases hs : Subscription.ofResult result error with
      | error fault =>
        have refused := Notice.ofExchange_eq_error_iff.mpr (Or.inl ⟨rfl, hs⟩)
        exact ⟨fault, (Notice.ofItem_response hm).trans refused⟩
      | ok s => exact absurd ((Subscription.ofResult_ok_iff result error).mp ⟨s, hs⟩) ha
    | @unauthorized bytes result error hm ha =>
      have rejected : ∃ fault, Notice.ofExchange .authorize result error = .error fault :=
        ⟨_, Notice.ofExchange_eq_error_iff.mpr (Or.inr ⟨rfl, ha, rfl⟩)⟩
      rwa [Notice.ofItem_response hm]
  · rintro ⟨fault, h⟩
    obtain ⟨bytes, e, result, error, rfl, hm, h⟩ := Notice.ofItem_eq_error_iff.mp h
    rcases Notice.ofExchange_eq_error_iff.mp h with ⟨rfl, hs⟩ | ⟨rfl, ha, -⟩
    · refine Fatal.unsubscribed hm ?_
      rw [← Subscription.ofResult_ok_iff result error]
      rintro ⟨s, hok⟩
      cases hs.symm.trans hok
    · exact Fatal.unauthorized hm ha

end PoolUplink
