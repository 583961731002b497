import PoolUplink.Proofs.Json.RoundTrip
import PoolUplink.Proofs.Json.Settle
import PoolUplink.Proofs.Wire.Remainder
import PoolUplink.Rpc.Message

/-!
# Messages are read back

A message that a line can hold in full is normal. Its line starts with a brace and has its only
line end at its end, so the stream yields it as one line, and reading that line gives the message
back: it is taken for a response only if it is one.
-/

set_option autoImplicit false
set_option relaxedAutoImplicit false

namespace PoolUplink.Rpc.Message

open PoolUplink.Json

def slots : Message → List (Option Value)
  | request id _ _ => [id]
  | response id result error => [id, result, error]

/-- What makes a message one that its line holds in full. -/
structure Normal (m : Message) : Prop where
  /-- A part that is there is not `null`, which would read as an absent one. -/
  present : some .null ∉ m.slots
  named : m.method? ≠ some ""
  integral : (Value.object m.members).integral = true
  /-- Objects have their members in the order of their names, none of them twice. -/
  settled : ∀ x ∈ m.members, x.2.settle = x.2
  nested : (Value.object m.members).depth ≤ Value.depthLimit

private theorem Normal.settle_present? {m : Message} (normal : m.Normal) {part : Option Value}
    (slot : part ∈ m.slots) {name : String} (member : ∀ v ∈ part, (name, v) ∈ m.members) :
    (part.bind fun w => w.settle.present?) = part := by
  cases part with
  | none => rfl
  | some v =>
    have present : v ≠ .null := by
      rintro rfl
      exact normal.present slot
    have settled : v.settle = v := normal.settled (name, v) (member v rfl)
    exact (Value.present?_settle present).trans (congrArg some settled)

private theorem Normal.settle_id {m : Message} (normal : m.Normal) :
    (m.rawId.getD .null).settle.present? = m.rawId := by
  have slot : m.rawId ∈ m.slots := by
    cases m <;> simp [rawId, slots]
  have member : ∀ v ∈ m.rawId, ("id", v) ∈ m.members := by
    cases m with
    | request id method params =>
      rintro v rfl
      simp [members]
    | response id result error =>
      rintro v rfl
      simp [members]
  have h := normal.settle_present? slot member
  cases hid : m.rawId with
  | none => rfl
  | some v =>
    rw [hid] at h
    exact h

private theorem asRequest?_members {id : Option Value} {method : String} {params : Value}
    (normal : (request id method params).Normal) :
    asRequest? (request id method params).members = some (request id method params) := by
  have hid : (id.getD .null).settle.present? = id := normal.settle_id
  have hparams : params.settle = params := normal.settled ("params", params) (by simp [members])
  have hmethod : method ≠ "" := by
    rintro rfl
    exact normal.named rfl
  simp [asRequest?, part?, unique?, members, hid, hparams, hmethod]

private theorem unique?_response (id result error : Option Value) :
    let ms := (response id result error).members
    unique? "id" ms = some (some (id.getD .null)) ∧ unique? "method" ms = some none ∧
      unique? "result" ms = some result ∧ unique? "error" ms = some error := by
  cases result <;> cases error <;> simp [unique?, members, optional]

private theorem asRequest?_response (id result error : Option Value) :
    asRequest? (response id result error).members = none := by
  obtain ⟨-, hmethod, -⟩ := unique?_response id result error
  unfold asRequest?
  rw [hmethod]
  split
  · rename_i h _
    cases h
  · rfl

private theorem asResponse?_members {id result error : Option Value}
    (normal : (response id result error).Normal) :
    asResponse? (response id result error).members = some (response id result error) := by
  obtain ⟨hid, -, hresult, herror⟩ := unique?_response id result error
  have result_slot : ∀ v ∈ result, ("result", v) ∈ (response id result error).members := by
    rintro v rfl
    simp [members, optional]
  have error_slot : ∀ v ∈ error, ("error", v) ∈ (response id result error).members := by
    rintro v rfl
    simp [members, optional]
  have hid' : (id.getD .null).settle.present? = id := normal.settle_id
  have hresult' := normal.settle_present? (by simp [slots]) result_slot
  have herror' := normal.settle_present? (by simp [slots]) error_slot
  simp only [asResponse?, part?, hid, hresult, herror, Option.map_some, Option.bind_some, hid',
    hresult', herror']

private theorem ofValue?_members {m : Message} (normal : m.Normal) :
    ofValue? (.object m.members) = some m := by
  cases m with
  | request id method params => rw [ofValue?, asRequest?_members normal]
  | response id result error =>
    rw [ofValue?, asRequest?_response, asResponse?_members normal]

theorem ofLine_toLine {m : Message} (normal : m.Normal) : ofLine m.toLine = .ok m := by
  have htakes := Value.takes_write (.object m.members) normal.integral normal.nested
    (show Numeral.Stops [0x0A] from ⟨by decide, by decide, by decide⟩)
  exact (htakes.filterMap (ofValue?_members normal)).run (by decide)

open PoolUplink.Wire (Ending Inbound Item Packet)

private theorem exists_packet {m : Message} (normal : m.Normal) :
    ∃ p : Packet, p.bytes = m.toLine ∧ p.item = .line m.toLine := by
  have single : Inbound.lineEnd ∉ (Value.object m.members).write := by
    intro h
    exact Value.no_control_of_mem_write (.object m.members) normal.integral _ h (by decide)
  have unmarked : (Value.object m.members).write.head? ≠ some Wire.Frame.mark := by
    intro h
    exact absurd (Option.some.inj h) (by decide)
  exact ⟨.line _ single unmarked, rfl, rfl⟩

theorem units_of_lines {ms : List Message} (normal : ∀ m ∈ ms, m.Normal)
    {chunks : List (List UInt8)} (ending : Ending) (cut : chunks.flatten = ms.flatMap toLine) :
    Item.units (.ofChunks chunks ending) =
      ms.map (fun m => .got (.line m.toLine)) ++ [ending.reading .disconnected] := by
  obtain ⟨ps, hbytes, hitems⟩ : ∃ ps : List Packet,
      ps.flatMap Packet.bytes = ms.flatMap toLine ∧
        ps.map Packet.item = ms.map fun m => .line m.toLine := by
    clear cut
    induction ms with
    | nil => exact ⟨[], rfl, rfl⟩
    | cons m ms ih =>
      obtain ⟨p, hp, hitem⟩ := exists_packet (normal m List.mem_cons_self)
      obtain ⟨ps, hps, hitems⟩ := ih fun n hn => normal n (List.mem_cons_of_mem m hn)
      refine ⟨p :: ps, ?_, ?_⟩
      · rw [List.flatMap_cons, List.flatMap_cons, hp, hps]
      · rw [List.map_cons, List.map_cons, hitem, hitems]
  have hcursor : (Inbound.ofChunks chunks ending).cursor =
      ⟨ps.flatMap Packet.bytes ++ Wire.Remainder.bytes (.openLine [] (by simp) (by simp)),
        ending⟩ := by
    rw [hbytes, ← cut]
    exact Inbound.cursor_eq (List.append_nil _).symm rfl
  have hunits := Item.units_of_packets_remainder ps _ hcursor
  have hgot : ps.map (fun p => Wire.Reading.got p.item) =
      ms.map fun m => .got (.line m.toLine) := by
    simpa [Function.comp_def] using congrArg (List.map Wire.Reading.got) hitems
  rw [hunits, hgot]
  rfl

end PoolUplink.Rpc.Message
