import PoolUplink.Proofs.Uplink.Effect

/-!
# When an uplink is subscribed

The response to the subscribe exchange subscribes an uplink exactly if it offers enough bytes, and
then with the id and the number of bytes it offers. One that offers too few is refused with their
number, and only a result of another shape is refused for its shape.
-/

set_option autoImplicit false
set_option relaxedAutoImplicit false

namespace PoolUplink.Uplink

open PoolUplink.Json (Value)
open PoolUplink.Rpc (Message)
open PoolUplink.Subscription (Offers amount)
open PoolUplink.Text.Numeral (Hexadecimal)

def subscribed (u : Uplink) (s : Subscription) : Uplink :=
  { u with
    sessionId := s.sessionId
    width := s.width
    answered := { u.answered with subscribe := true }
    phase := .subscribed }

private theorem onSubscribe_fst (u : Uplink) (result error : Option Value) :
    (u.onSubscribe result error).1 = (Subscription.ofResult result error).map u.subscribed := by
  unfold onSubscribe
  cases Subscription.ofResult result error <;> rfl

private theorem onSubscribe_eq_error_iff {u : Uplink} {result error : Option Value}
    {fault : Fault} :
    (u.onSubscribe result error).1 = .error fault ↔
      Subscription.ofResult result error = .error fault := by
  rw [onSubscribe_fst]
  cases Subscription.ofResult result error with
  | error other => simp [Except.map]
  | ok s => simp [Except.map]

private theorem onSubscribe_eq_ok_iff {u v : Uplink} {result error : Option Value} :
    (u.onSubscribe result error).1 = .ok v ↔
      ∃ id n, Offers result id n ∧ 6 ≤ amount n ∧ v = u.subscribed ⟨id, (amount n).toNat⟩ := by
  rw [onSubscribe_fst]
  constructor
  · intro h
    cases hs : Subscription.ofResult result error with
    | error fault =>
      rw [hs] at h
      cases h
    | ok s =>
      rw [hs] at h
      cases h
      obtain ⟨id, n, offers, enough, rfl⟩ := Subscription.ofResult_eq_ok_iff.mp hs
      exact ⟨id, n, offers, enough, rfl⟩
  · rintro ⟨id, n, offers, enough, rfl⟩
    rw [Subscription.ofResult_eq_ok_iff.mpr ⟨id, n, offers, enough, rfl⟩]
    rfl

private theorem onLine_of_subscribe {bytes : List UInt8} {result error : Option Value}
    (h : Message.ofLine bytes = .ok (.response (some (.string "sub")) result error))
    (u : Uplink) : (u.onLine bytes).1 = (u.onSubscribe result error).1.map promoted := by
  have hnotice : Notice.ofItem (.line bytes) =
      (Subscription.ofResult result error).map .granted :=
    Notice.ofItem_response (e := .subscribe) h
  rw [onLine_fst, hnotice, onSubscribe_fst]
  cases Subscription.ofResult result error <;> rfl

private theorem exists_offer {id : UInt32} {w : Nat} {digits : List Char}
    (hex : Hexadecimal id.toNat digits) (h : w ≤ 2 ^ 53) (first : Value) (rest : List Value) :
    ∃ n, Offers (some (.array (first :: .string (String.ofList digits) :: .ofNat w :: rest))) id n ∧
      amount n = w := by
  have exact : Json.Exact w := by
    have hmin : Int64.minValue.toInt = -2 ^ 63 := by decide
    have hsize : (UInt64.size : Int) = 2 ^ 64 := by decide
    rw [Json.Exact, hmin, hsize]
    omega
  refine ⟨.whole w exact, ⟨first, String.ofList digits, rest, ?_, ?_⟩,
    Subscription.amount_whole h exact⟩
  · rw [Value.ofNat, dif_pos exact]
  · rw [String.toList_ofList]
    exact hex.spells

/-- Whatever an uplink is like, the response subscribes it exactly if its result offers an id and a
number that amounts to at least six, and then with the id and that amount. Of a smaller amount it is
refused as too short, with the amount, and of any other result for its shape. So every id in
hexadecimal and every whole number from six up to the limit of exact doubles are taken as they are.
The line of the response is handled so, and leaves an uplink that has subscribed at least. -/
theorem subscribed_iff_offered (u : Uplink) (result error : Option Value) :
    (∀ v, (u.onSubscribe result error).1 = .ok v ↔
      ∃ id n, Offers result id n ∧ 6 ≤ amount n ∧ v = u.subscribed ⟨id, (amount n).toNat⟩) ∧
    (∀ size least, (u.onSubscribe result error).1 = .error (.extranonceTooShort size least) ↔
      least = 6 ∧ size < 6 ∧ ∃ id n, Offers result id n ∧ size = amount n) ∧
    ((∃ what, (u.onSubscribe result error).1 = .error (Subscription.fault what error)) ↔
      ∀ id n, ¬ Offers result id n) ∧
    (∀ (id : UInt32) (w : Nat) (digits : List Char) (first : Value) (rest : List Value),
      Hexadecimal id.toNat digits → 6 ≤ w → w ≤ 2 ^ 53 →
      result = some (.array (first :: .string (String.ofList digits) :: .ofNat w :: rest)) →
      (u.onSubscribe result error).1 = .ok (u.subscribed ⟨id, w⟩)) ∧
    ∀ bytes, Message.ofLine bytes = .ok (.response (some (.string "sub")) result error) →
      (u.onLine bytes).1 = (u.onSubscribe result error).1.map promoted ∧
      ∀ v, (u.onLine bytes).1 = .ok v → Phase.subscribed.rank ≤ v.phase.rank := by
  refine ⟨fun v => onSubscribe_eq_ok_iff, fun size least => ?_, ?_, ?_, fun bytes hm => ?_⟩
  · rw [onSubscribe_eq_error_iff, Subscription.ofResult_eq_short_iff]
  · simp only [onSubscribe_eq_error_iff]
    exact Subscription.exists_fault_iff
  · rintro id w digits first rest hex least most rfl
    obtain ⟨n, offers, hamount⟩ := exists_offer hex most first rest
    refine onSubscribe_eq_ok_iff.mpr ⟨id, n, offers, ?_, ?_⟩
    · omega
    · rw [hamount, Int.toNat_natCast]
  · have hline := onLine_of_subscribe hm u
    refine ⟨hline, fun v hv => ?_⟩
    rw [hline, onSubscribe_fst] at hv
    cases hs : Subscription.ofResult result error with
    | error fault =>
      rw [hs] at hv
      cases hv
    | ok s =>
      rw [hs] at hv
      cases hv
      exact promoted_rank (u.subscribed s)

def sampleOffer : List UInt8 :=
  Json.Ascii.bytes "\x7b\"id\":\"sub\",\"result\":[[],\"+00fF\",6.99]\x7d\n"

def sampleOffered : Value :=
  .array [.array [], .string "+00fF", .number (.double ⟨false, 7870040348829942, -50⟩)]

theorem subscribed_iff_offered_of_sampleOffer :
    ∃ u, create sampleSettings "account" 0 = .ok u ∧
      Message.ofLine sampleOffer =
        .ok (.response (some (.string "sub")) (some sampleOffered) none) ∧
      (u.onSubscribe (some sampleOffered) none).1 = .ok (u.subscribed ⟨255, 6⟩) ∧
      (∃ v, (u.onLine sampleOffer).1 = .ok v ∧ Phase.subscribed.rank ≤ v.phase.rank) ∧
      Hexadecimal (0xFFFFFFFF : UInt32).toNat "FFFFFFFF".toList ∧
      (u.onSubscribe (some (.array [.null, .string (String.ofList "FFFFFFFF".toList),
        .ofNat (2 ^ 53)])) none).1 = .ok (u.subscribed ⟨0xFFFFFFFF, 2 ^ 53⟩) := by
  obtain ⟨u, created⟩ : ∃ u, create sampleSettings "account" 0 = .ok u := ⟨_, rfl⟩
  have hmessage : Message.ofLine sampleOffer =
      .ok (.response (some (.string "sub")) (some sampleOffered) none) := by decide +kernel
  have hhex : Hexadecimal (0xFFFFFFFF : UInt32).toNat "FFFFFFFF".toList :=
    ⟨8, Or.inr (by decide +kernel)⟩
  have hspells : Text.Numeral.Spells 16 "+00fF".toList (255 : UInt32).toNat :=
    ((Text.Numeral.unsigned?_eq_some_iff (by decide)).mp
      (show Text.Numeral.unsigned? 16 256 "+00fF".toList = some 255 by decide +kernel)).1
  have hamount : amount (.double ⟨false, 7870040348829942, -50⟩) = 6 := by
    rw [← Subscription.widthOf_eq]
    decide +kernel
  obtain ⟨hok, -, -, -, hline⟩ := subscribed_iff_offered u (some sampleOffered) none
  have hsubscribed : (u.onSubscribe (some sampleOffered) none).1 =
      .ok (u.subscribed ⟨255, 6⟩) :=
    (hok _).mpr ⟨255, _, ⟨_, _, _, rfl, hspells⟩, hamount.ge, by rw [hamount]; rfl⟩
  obtain ⟨heq, hrank⟩ := hline sampleOffer hmessage
  rw [hsubscribed] at heq
  have hexact := (subscribed_iff_offered u (some (.array [.null,
    .string (String.ofList "FFFFFFFF".toList), .ofNat (2 ^ 53)])) none).2.2.2.1
  exact ⟨u, created, hmessage, hsubscribed, ⟨_, heq, hrank _ heq⟩, hhex,
    hexact _ _ _ _ _ hhex (by decide) (by decide) rfl⟩

end PoolUplink.Uplink
