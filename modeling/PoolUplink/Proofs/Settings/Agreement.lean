import PoolUplink.Proofs.Settings.Document
import PoolUplink.Proofs.Settings.Variables

/-!
# Variables and documents agree

What variables can state, a document can state as well, and both are read as the settings that are
meant: whatever the hosts hold that a list of pools can name, and over the whole range of the
numbers.
-/

set_option autoImplicit false
set_option relaxedAutoImplicit false

namespace PoolUplink.Settings

open PoolUplink.Json

def statedFields (pools : List Endpoint) (flag : Bool) (dial handshake : UInt64) :
    List Document.Field :=
  [.pools pools, .submitResponse flag, .dialSeconds dial, .handshakeSeconds handshake]

private theorem readBytes_of_stated {pools : List Endpoint} {flag : Bool} {dial handshake : UInt64}
    {fields : List Document.Field} {members : List (String × Value)} (some_pool : pools ≠ [])
    (order : fields.Perm (statedFields pools flag dial handshake))
    (written : List.Forall₂ Document.Written fields members) {document : List UInt8}
    (h : Value.read document = .ok (.object members)) :
    Document.readBytes document = .ok (stated pools flag dial handshake) := by
  have distinct : (fields.map Document.Field.name).Nodup := by
    rw [(order.map Document.Field.name).nodup_iff]
    exact (by decide : ["pools", "submit_response_from_server", "dial_timeout_secs",
      "handshake_timeout_secs"].Nodup)
  have hdraft : ((statedFields pools flag dial handshake).foldl Document.Field.put
      Document.Draft.empty).settings = stated pools flag dial handshake := by
    simp [statedFields, Document.Field.put, Document.Draft.empty, Document.Draft.settings, stated,
      standard]
  rw [Document.readBytes_of_written written distinct h,
    Document.foldl_put_perm order distinct, hdraft, validate_stated some_pool]

/-- Variables that name plain pools and state the flag and the seconds are read as these settings,
and so is every document whose members state the same, in any order and in any text; one such text
is that of the members. -/
theorem variables_and_document_agree {pools : List Endpoint} {listed : List String} {flag : Bool}
    {dial handshake : UInt64} {lookup : String → Option String} {fields : List Document.Field}
    {members : List (String × Value)} (some_pool : pools ≠ []) (plain : ∀ e ∈ pools, e.Plain)
    (named : List.Forall₂ Endpoint.NamedBy pools listed)
    (state : Variables.State lookup listed flag dial handshake)
    (order : fields.Perm (statedFields pools flag dial handshake))
    (written : List.Forall₂ Document.Written fields members) :
    Variables.read lookup = .ok (stated pools flag dial handshake) ∧
      (∀ document : String, Value.read (Ascii.bytes document) = .ok (.object members) →
        Document.read document = .ok (stated pools flag dial handshake)) ∧
      Document.read (Value.object members).text = .ok (stated pools flag dial handshake) := by
  have hdocument : ∀ document : String,
      Value.read (Ascii.bytes document) = .ok (.object members) →
        Document.read document = .ok (stated pools flag dial handshake) :=
    fun _ h => readBytes_of_stated some_pool order written h
  exact ⟨Variables.read_of_state some_pool plain named state, hdocument,
    hdocument _ (Document.read_text_of_written written)⟩

/-- One host with colons in it, and one that holds a scheme further inside. -/
def samplePools : List Endpoint := [⟨"[::1]", 1800⟩, ⟨"a tcp://b", 65535⟩]

def sampleVariables : String → Option String
  | "AGENT_POOLS" => some " stratum+tcp://[::1]:1800\t,a tcp://b:65535"
  | "AGENT_SUBMIT_RESPONSE_FROM_SERVER" => some "true"
  | "AGENT_DIAL_TIMEOUT_SECS" => some "0"
  | "AGENT_HANDSHAKE_TIMEOUT_SECS" => some "18446744073709551615"
  | _ => none

def sampleMembers : List (String × Value) := [
  ("handshake_timeout_secs", .ofNat 18446744073709551615),
  ("pools", .array [
    .object [("host", .string "[::1]"), ("port", .ofNat 1800)],
    .object [("port", .ofNat 65535), ("host", .string "a tcp://b")]]),
  ("dial_timeout_secs", .ofNat 0),
  ("submit_response_from_server", .bool true)]

theorem variables_and_document_agree_of_samples :
    Variables.read sampleVariables = .ok (stated samplePools true 0 18446744073709551615) ∧
      Document.read (Value.object sampleMembers).text =
        .ok (stated samplePools true 0 18446744073709551615) := by
  have plain : ∀ e ∈ samplePools, e.Plain := by
    rw [samplePools, List.forall_mem_cons, List.forall_mem_singleton]
    refine ⟨⟨by decide, by decide, ?_, by decide⟩, ⟨by decide, by decide, ?_, by decide⟩⟩
    · rintro c ⟨⟩
      decide
    · rintro c ⟨⟩
      decide
  have named : List.Forall₂ Endpoint.NamedBy samplePools
      [" stratum+tcp://[::1]:1800\t", "a tcp://b:65535"] := by
    refine .cons ⟨[' '], "stratum+tcp://".toList, ['\t'], ?_, ?_, ?_, ?_⟩
      (.cons ⟨[], [], [], List.forall_mem_nil _, List.forall_mem_nil _, ?_, ?_⟩ .nil)
    · exact List.forall_mem_singleton.mpr (by decide)
    · exact List.forall_mem_singleton.mpr (by decide)
    · decide
    · decide
    · decide
    · decide
  have state : Variables.State sampleVariables
      [" stratum+tcp://[::1]:1800\t", "a tcp://b:65535"] true 0 18446744073709551615 :=
    ⟨by decide +kernel, by decide +kernel, by decide +kernel, by decide +kernel⟩
  have order : [Document.Field.handshakeSeconds 18446744073709551615, .pools samplePools,
      .dialSeconds 0, .submitResponse true].Perm
        (statedFields samplePools true 0 18446744073709551615) := by
    decide +kernel
  have written : List.Forall₂ Document.Written [.handshakeSeconds 18446744073709551615,
      .pools samplePools, .dialSeconds 0, .submitResponse true] sampleMembers := by
    refine .cons (.handshakeSeconds _) (.cons (.pools ?_) (.cons (.dialSeconds _)
      (.cons (.submitResponse _) .nil)))
    exact .cons .hostFirst (.cons .portFirst .nil)
  obtain ⟨hvariables, -, htext⟩ :=
    variables_and_document_agree (List.cons_ne_nil _ _) plain named state order written
  exact ⟨hvariables, htext⟩

end PoolUplink.Settings
