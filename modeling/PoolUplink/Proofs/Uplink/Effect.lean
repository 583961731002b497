import PoolUplink.Proofs.Uplink.Invariant

/-!
# What a line changes

The reaction to a line as work on the uplink in place, one assignment after the other, where a
fault leaves whatever has been assigned before it. It comes to what the reaction says: no fault
comes behind an assignment. So a line that fails leaves the uplink as it was, and one that does not
changes what its message is about.
-/

set_option autoImplicit false
set_option relaxedAutoImplicit false

namespace PoolUplink

open PoolUplink.Json (Value)
open PoolUplink.Rpc (Message)
open PoolUplink.Rpc.Setup (Exchange)

def Phase.Promotes (before after : Phase) : Prop :=
  after = before ∨ (before = .subscribed ∧ after = .authorized)

namespace Uplink

/-- Work on an uplink in place. A fault leaves the uplink as it is then. -/
abbrev InPlace := EStateM Fault Uplink

namespace InPlace

def check {α : Type} : Except Fault α → InPlace α
  | .ok a => pure a
  | .error fault => throw fault

def subscribe (result error : Option Value) : InPlace Unit := do
  let s ← check (Subscription.ofResult result error)
  modify fun u => { u with sessionId := s.sessionId }
  modify fun u => { u with width := s.width }
  modify fun u => { u with answered := { u.answered with subscribe := true } }
  modify fun u => { u with phase := .subscribed }

def configure : InPlace Unit :=
  modify fun u => { u with answered := { u.answered with configure := true } }

def features (result : Option Value) : InPlace Unit := do
  modify fun u => { u with features := (Features.ofResult result).1 }
  modify fun u => { u with answered := { u.answered with features := true } }

def authorize (result error : Option Value) : InPlace Unit := do
  unless isTrue result do
    throw (.authorizationFailed ("result: " ++ Json.Inspect.text result ++
      ", pool error: " ++ Json.Inspect.text error))
  modify fun u => { u with answered := { u.answered with authorize := true } }

def promote : InPlace Unit := do
  let u ← get
  if u.answered.complete && u.phase == .subscribed then
    modify fun u => { u with phase := .authorized }

def response (id result error : Option Value) : InPlace Unit := do
  match (id.bind Value.string?).bind Exchange.ofId? with
  | some .subscribe => subscribe result error
  | some .configure => configure
  | some .features => features result
  | some .authorize => authorize result error
  | none => pure ()
  promote

def request (method : String) (params : Value) : InPlace Unit := do
  if method = "mining.set_version_mask" then
    match VersionMask.ofParams? params with
    | some mask => modify fun u => { u with versionMask := mask }
    | none => pure ()

def line (bytes : List UInt8) : InPlace Unit :=
  match Message.ofLine bytes with
  | .ok (.request _ method params) => request method params
  | .ok (.response id result error) => response id result error
  | .error _ => pure ()

end InPlace

namespace InPlace

def left (u : Uplink) : Except Fault Uplink → EStateM.Result Fault Uplink Unit
  | .ok v => .ok () v
  | .error fault => .error fault u

private theorem run_promote (u : Uplink) : promote.run u = .ok () u.promoted := by
  unfold promoted Uplink.promote
  change (if (u.answered.complete && u.phase == .subscribed) = true then
    (modify fun u => { u with phase := .authorized } : InPlace Unit) else pure ()) u = _
  split <;> rfl

private theorem run_bind_promote (work : InPlace Unit) (u v : Uplink) (h : work.run u = .ok () v) :
    (work >>= fun _ => promote).run u = .ok () v.promoted := by
  rw [EStateM.run_bind, h]
  exact run_promote v

private theorem run_bind_of_error (work : InPlace Unit) {u v : Uplink} {fault : Fault}
    (h : work.run u = .error fault v) :
    (work >>= fun _ => promote).run u = .error fault v := by
  rw [EStateM.run_bind, h]

private theorem run_response (u : Uplink) (id result error : Option Value) :
    (response id result error).run u =
      left u ((Notice.ofMessage (.response id result error)).map u.heed) := by
  unfold response Notice.ofMessage
  dsimp only
  cases (id.bind Value.string?).bind Exchange.ofId? with
  | none => exact run_promote u
  | some e =>
    cases e with
    | subscribe =>
      dsimp only [Notice.ofExchange]
      cases hs : Subscription.ofResult result error with
      | error fault =>
        refine run_bind_of_error _ ?_
        unfold subscribe
        rw [hs]
        rfl
      | ok s =>
        refine run_bind_promote _ _ _ ?_
        unfold subscribe
        rw [hs]
        rfl
    | configure => exact run_bind_promote _ _ _ rfl
    | features => exact run_bind_promote _ _ _ rfl
    | authorize =>
      dsimp only [Notice.ofExchange]
      cases ht : isTrue result with
      | true =>
        refine run_bind_promote _ _ _ ?_
        unfold authorize
        rw [ht]
        rfl
      | false =>
        refine run_bind_of_error _ ?_
        unfold authorize
        rw [ht]
        rfl

private theorem run_request (u : Uplink) (method : String) (params : Value) :
    (request method params).run u = .ok () (u.heed (Notice.ofRequest method params)) := by
  unfold request Notice.ofRequest
  split
  · cases VersionMask.ofParams? params <;> rfl
  · rfl

private theorem run_line (u : Uplink) (bytes : List UInt8) :
    (line bytes).run u = left u (u.onLine bytes).1 := by
  rw [onLine_fst]
  unfold line Notice.ofItem
  dsimp only
  cases Message.ofLine bytes with
  | error fault => rfl
  | ok m =>
    cases m with
    | request id method params => exact run_request u method params
    | response id result error => exact run_response u id result error

end InPlace

private theorem promoted_promotes (u : Uplink) : u.phase.Promotes u.promoted.phase := by
  rw [promoted_eq]
  dsimp only
  split
  · rename_i h
    exact Or.inr ⟨eq_of_beq (Bool.and_eq_true_iff.mp h).2, rfl⟩
  · exact Or.inl rfl

/-- A promotion that is due has been made, so of an uplink as it is at any time there is none. -/
theorem Sound.promoted_eq_self {u : Uplink} (h : Sound u) : u.promoted = u := by
  rw [promoted_eq]
  split
  · rename_i hdue
    obtain ⟨hcomplete, hphase⟩ := Bool.and_eq_true_iff.mp hdue
    have hsubscribed : u.phase = .subscribed := eq_of_beq hphase
    have hrank : Phase.subscribed.rank ≤ u.phase.rank := by rw [hsubscribed]
    have hauthorized := (h.complete hrank).mpr hcomplete
    rw [hsubscribed] at hauthorized
    cases hauthorized
  · rfl

private theorem fault_of_onLine {u : Uplink} {bytes : List UInt8} {fault : Fault}
    (h : (u.onLine bytes).1 = .error fault) :
    (∃ result error,
        Message.ofLine bytes = .ok (.response (some (.string "sub")) result error) ∧
          ((∃ reason, fault = .subscriptionFailed reason) ∨
            ∃ size, fault = .extranonceTooShort size 6)) ∨
      ∃ result error,
        Message.ofLine bytes = .ok (.response (some (.string "auth")) result error) ∧
          ∃ reason, fault = .authorizationFailed reason := by
  obtain ⟨_, e, result, error, heq, hm, hfault⟩ :=
    Notice.ofItem_eq_error_iff.mp
      (show Notice.ofItem (.line bytes) = .error fault from fault_of_onItem h)
  cases heq
  rcases Notice.ofExchange_eq_error_iff.mp hfault with ⟨rfl, hs⟩ | ⟨rfl, -, rfl⟩
  · exact Or.inl ⟨result, error, hm, Subscription.fault_of_ofResult hs⟩
  · exact Or.inr ⟨result, error, hm, _, rfl⟩

private theorem heed_of_run_line {u v : Uplink} {bytes : List UInt8}
    (h : (InPlace.line bytes).run u = .ok () v) :
    ∃ n, Notice.ofItem (.line bytes) = .ok n ∧ v = u.heed n := by
  rw [InPlace.run_line] at h
  cases hr : (u.onLine bytes).1 with
  | error fault =>
    rw [hr] at h
    cases h
  | ok w =>
    rw [hr] at h
    cases h
    exact heed_of_onItem hr

private theorem heed_ofRequest (u : Uplink) (method : String) (params : Value) :
    u.heed (Notice.ofRequest method params) =
        { u with versionMask := (u.heed (Notice.ofRequest method params)).versionMask } ∧
      (method ≠ "mining.set_version_mask" → u.heed (Notice.ofRequest method params) = u) := by
  unfold Notice.ofRequest
  split
  · rename_i hmethod
    refine ⟨?_, fun hne => absurd hmethod hne⟩
    cases VersionMask.ofParams? params <;> rfl
  · exact ⟨rfl, fun _ => rfl⟩

/-- The response to an exchange changes only what it is about, the flag of the exchange, and the
phase: a subscription is promoted from the subscribed phase, the others from the phase that was
there. -/
def ChangesBy (u v : Uplink) : Exchange → Prop
  | .subscribe =>
    v = { u with
      sessionId := v.sessionId
      width := v.width
      answered := { u.answered with subscribe := true }
      phase := v.phase } ∧ Phase.Promotes .subscribed v.phase
  | .configure =>
    v = { u with answered := { u.answered with configure := true }, phase := v.phase } ∧
      u.phase.Promotes v.phase
  | .features =>
    v = { u with
      features := v.features
      answered := { u.answered with features := true }
      phase := v.phase } ∧ u.phase.Promotes v.phase
  | .authorize =>
    v = { u with answered := { u.answered with authorize := true }, phase := v.phase } ∧
      u.phase.Promotes v.phase

private theorem heed_ofExchange {u : Uplink} {e : Exchange} {result error : Option Value}
    {n : Notice} (h : Notice.ofExchange e result error = .ok n) : u.ChangesBy (u.heed n) e := by
  rcases Notice.ofExchange_eq_ok_iff.mp h with
    ⟨rfl, s, -, rfl⟩ | ⟨rfl, rfl⟩ | ⟨rfl, rfl⟩ | ⟨rfl, -, rfl⟩
  · exact ⟨by rw [heed, promoted_eq], promoted_promotes { u with
      sessionId := s.sessionId
      width := s.width
      answered := { u.answered with subscribe := true }
      phase := .subscribed }⟩
  · exact ⟨by rw [heed, promoted_eq],
      promoted_promotes { u with answered := { u.answered with configure := true } }⟩
  · exact ⟨by rw [heed, promoted_eq], promoted_promotes { u with
      features := (Features.ofResult result).1
      answered := { u.answered with features := true } }⟩
  · exact ⟨by rw [heed, promoted_eq],
      promoted_promotes { u with answered := { u.answered with authorize := true } }⟩

/-- Whatever the uplink and the line are, working in place comes to what the reaction says. If the
line fails, the uplink is as it was, and the line is a response to the subscribe or the authorize
exchange with a fault of its own. If it does not fail: a line that is no message changes nothing; a
request, whatever its id is, changes the version mask at most, and that only if it is about the
mask; a response to an exchange changes what that exchange is about; and any other response changes
nothing in an uplink as it is after any history. -/
theorem line_changes (u : Uplink) (bytes : List UInt8) :
    (InPlace.line bytes).run u = InPlace.left u (u.onLine bytes).1 ∧
    (∀ fault v, (InPlace.line bytes).run u = .error fault v →
      v = u ∧
        ((∃ result error,
            Message.ofLine bytes = .ok (.response (some (.string "sub")) result error) ∧
              ((∃ reason, fault = .subscriptionFailed reason) ∨
                ∃ size, fault = .extranonceTooShort size 6)) ∨
          ∃ result error,
            Message.ofLine bytes = .ok (.response (some (.string "auth")) result error) ∧
              ∃ reason, fault = .authorizationFailed reason)) ∧
    ∀ v, (InPlace.line bytes).run u = .ok () v →
      (∀ fault, Message.ofLine bytes = .error fault → v = u) ∧
      (∀ id method params, Message.ofLine bytes = .ok (.request id method params) →
        v = { u with versionMask := v.versionMask } ∧
          (method ≠ "mining.set_version_mask" → v = u)) ∧
      ∀ id result error, Message.ofLine bytes = .ok (.response id result error) →
        (∀ e : Exchange, id = some (.string e.id) → u.ChangesBy v e) ∧
        ((∀ e : Exchange, id ≠ some (.string e.id)) →
          ∀ (settings : Settings) (account : String) (index : Nat) (first : Uplink)
            (steps : List Step), create settings account index = .ok first →
            u = first.after steps → v = u) := by
  have hrun := InPlace.run_line u bytes
  refine ⟨hrun, fun fault v hfault => ?_, fun v hok => ?_⟩
  · rw [hrun] at hfault
    cases hr : (u.onLine bytes).1 with
    | ok w =>
      rw [hr] at hfault
      cases hfault
    | error other =>
      rw [hr] at hfault
      cases hfault
      exact ⟨rfl, fault_of_onLine hr⟩
  · obtain ⟨n, hn, rfl⟩ := heed_of_run_line hok
    refine ⟨fun fault hm => ?_, fun id method params hm => ?_, fun id result error hm => ?_⟩
    · simp only [Notice.ofItem, hm] at hn
      cases hn
      rfl
    · simp only [Notice.ofItem, hm] at hn
      cases hn
      exact heed_ofRequest u method params
    · simp only [Notice.ofItem, hm] at hn
      refine ⟨fun e he => ?_, fun hother settings account index first steps created hu => ?_⟩
      · rw [Notice.ofMessage_response he] at hn
        exact heed_ofExchange hn
      · have hnone : (id.bind Value.string?).bind Exchange.ofId? = none := by
          by_contra hsome
          obtain ⟨e, he⟩ := Option.ne_none_iff_exists'.mp hsome
          exact hother e (exchange_of_id.mp he)
        simp only [Notice.ofMessage, hnone] at hn
        cases hn
        rw [hu]
        exact (after_sound (create_sound created) steps).promoted_eq_self

def sampleShort : List UInt8 :=
  Json.Ascii.bytes "\x7b\"id\":\"sub\",\"result\":[[],\"0a\",5.9]\x7d\n"

def sampleStrange : List UInt8 :=
  Json.Ascii.bytes "\x7b\"id\":\"Sub\",\"result\":[[],\"0a\",9]\x7d\n"

theorem line_changes_of_sampleAnswers :
    ∃ first, create sampleSettings "account" 0 = .ok first ∧
      (first.after sampleAnswers).phase = .authorized ∧
      (InPlace.line sampleShort).run (first.after sampleAnswers) =
        .error (.extranonceTooShort 5 6) (first.after sampleAnswers) ∧
      (InPlace.line sampleStrange).run (first.after sampleAnswers) =
        .ok () (first.after sampleAnswers) := by
  obtain ⟨first, created⟩ : ∃ u, create sampleSettings "account" 0 = .ok u := ⟨_, rfl⟩
  have hphase : (first.after sampleAnswers).phase = .authorized := by
    cases created
    decide +kernel
  obtain ⟨hshort, -, -⟩ := line_changes (first.after sampleAnswers) sampleShort
  have hfault : ((first.after sampleAnswers).onLine sampleShort).1 =
      .error (.extranonceTooShort 5 6) := by
    cases created
    decide +kernel
  have hmessage : Message.ofLine sampleStrange = .ok (.response (some (.string "Sub"))
      (some (.array [.array [], .string "0a", .ofNat 9])) none) := by decide +kernel
  have hother : ∀ e : Exchange, some (Value.string "Sub") ≠ some (.string e.id) := by
    intro e
    cases e <;> decide
  obtain ⟨-, hfails, hok⟩ := line_changes (first.after sampleAnswers) sampleStrange
  refine ⟨first, created, hphase, ?_, ?_⟩
  · rw [hshort, hfault]
    rfl
  · cases hrun : (InPlace.line sampleStrange).run (first.after sampleAnswers) with
    | ok _ v =>
      have hsame := ((hok v hrun).2.2 _ _ _ hmessage).2 hother _ _ _ _ _ created rfl
      rw [hsame]
    | error fault v =>
      -- it fails only as one of the two responses that it is not
      rcases (hfails fault v hrun).2 with ⟨result, error, hm, -⟩ | ⟨result, error, hm, -⟩ <;>
        simp [hmessage] at hm

end Uplink

end PoolUplink
