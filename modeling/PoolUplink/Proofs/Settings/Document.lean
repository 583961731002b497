import Mathlib.Data.List.Nodup
import PoolUplink.Proofs.Json.Records
import PoolUplink.Proofs.Json.Settle
import PoolUplink.Proofs.Json.Shape
import PoolUplink.Proofs.Json.Text
import PoolUplink.Settings.Document

/-!
# What documents state

A document states some of the settings, each by a member of its own. Members of different names
fill different parts of the settings, so that their order makes no difference, and what is left
out keeps its standard.
-/

set_option autoImplicit false
set_option relaxedAutoImplicit false

namespace PoolUplink.Settings.Document

open PoolUplink.Json

/-- One of the settings with what is stated of it. -/
inductive Field where
  | pools (pools : List Endpoint)
  | submitResponse (flag : Bool)
  | dialSeconds (seconds : UInt64)
  | handshakeSeconds (seconds : UInt64)
  | queueCapacity (capacity : UInt64)
  | userAgent (agent : String)
  deriving DecidableEq, Repr

namespace Field

def name : Field → String
  | pools _ => "pools"
  | submitResponse _ => "submit_response_from_server"
  | dialSeconds _ => "dial_timeout_secs"
  | handshakeSeconds _ => "handshake_timeout_secs"
  | queueCapacity _ => "event_channel_capacity"
  | userAgent _ => "user_agent"

def put (d : Draft) : Field → Draft
  | pools ps => { d with pools := some ps }
  | submitResponse flag => { d with submitResponse := some flag }
  | dialSeconds n => { d with dialSeconds := some n.toNat }
  | handshakeSeconds n => { d with handshakeSeconds := some n.toNat }
  | queueCapacity n => { d with queueCapacity := some n.toNat }
  | userAgent agent => { d with userAgent := some agent }

def stated (d : Draft) : Field → Bool
  | pools _ => d.pools.isSome
  | submitResponse _ => d.submitResponse.isSome
  | dialSeconds _ => d.dialSeconds.isSome
  | handshakeSeconds _ => d.handshakeSeconds.isSome
  | queueCapacity _ => d.queueCapacity.isSome
  | userAgent _ => d.userAgent.isSome

theorem put_comm {f g : Field} (h : f.name ≠ g.name) (d : Draft) :
    put (put d f) g = put (put d g) f := by
  cases f <;> cases g <;> first | rfl | exact absurd rfl h

private theorem stated_put {f g : Field} (h : f.name ≠ g.name) (d : Draft) :
    stated (put d f) g = stated d g := by
  cases f <;> cases g <;> first | rfl | exact absurd rfl h

end Field

inductive PoolWritten (e : Endpoint) : Value → Prop
  | hostFirst : PoolWritten e
      (.object [("host", .string e.host), ("port", .ofNat e.portNumber.toNat)])
  | portFirst : PoolWritten e
      (.object [("port", .ofNat e.portNumber.toNat), ("host", .string e.host)])

inductive Written : Field → String × Value → Prop
  | pools {ps : List Endpoint} {vs : List Value} : List.Forall₂ PoolWritten ps vs →
      Written (.pools ps) ("pools", .array vs)
  | submitResponse (flag : Bool) :
      Written (.submitResponse flag) ("submit_response_from_server", .bool flag)
  | dialSeconds (n : UInt64) : Written (.dialSeconds n) ("dial_timeout_secs", .ofNat n.toNat)
  | handshakeSeconds (n : UInt64) :
      Written (.handshakeSeconds n) ("handshake_timeout_secs", .ofNat n.toNat)
  | queueCapacity (n : UInt64) :
      Written (.queueCapacity n) ("event_channel_capacity", .ofNat n.toNat)
  | userAgent (agent : String) : Written (.userAgent agent) ("user_agent", .string agent)

private theorem forall_right {α β : Type} {R : α → β → Prop} {P : β → Prop} {xs : List α}
    {ys : List β} (h : List.Forall₂ R xs ys) (hP : ∀ x y, R x y → P y) : ∀ y ∈ ys, P y := by
  have hpairs : List.Forall₂ (fun y x => P y ∧ R x y) ys xs :=
    (h.imp fun x y hxy => ⟨hP x y hxy, hxy⟩).flip
  exact ((List.forall₂_and_left _ _).mp hpairs).1

private theorem ofNat_of_lt {n : Nat} (fits : n < UInt64.size) :
    ∃ exact, Value.ofNat n = .number (.whole n exact) := by
  have exact : Exact n :=
    ⟨Int.le_trans (by decide) (Int.natCast_nonneg n), Int.ofNat_lt.mpr fits⟩
  exact ⟨exact, dif_pos exact⟩

private theorem reads_ofNat {bound n : Nat} (h : n < bound) (fits : n < UInt64.size) :
    Reads (Shape.natural bound) (.ofNat n) n := by
  obtain ⟨exact, hn⟩ := ofNat_of_lt fits
  rw [hn]
  exact Shape.reads_natural exact h

private theorem reads_limit (n : UInt64) :
    Reads (Shape.natural UInt64.size) (.ofNat n.toNat) n.toNat :=
  reads_ofNat n.toNat_lt_size n.toNat_lt_size

private theorem portNumber_fits (e : Endpoint) : e.portNumber.toNat < UInt64.size :=
  Nat.lt_trans e.portNumber.toNat_lt_size (by decide)

private theorem reads_pool {e : Endpoint} {v : Value} (h : PoolWritten e v) : Reads pool v e := by
  have hhost : Reads Shape.text (.string e.host) e.host := Shape.reads_text e.host
  have hnumber : Reads (Shape.natural UInt16.size) (.ofNat e.portNumber.toNat) e.portNumber.toNat :=
    reads_ofNat e.portNumber.toNat_lt_size (portNumber_fits e)
  cases h with
  | hostFirst =>
    refine Reads.filterMap (Shape.reads_record (.next rfl rfl (hhost.map _)
      (.next rfl rfl (hnumber.map _) (.done _)))) ?_
    simp
  | portFirst =>
    refine Reads.filterMap (Shape.reads_record (.next rfl rfl (hnumber.map _)
      (.next rfl rfl (hhost.map _) (.done _)))) ?_
    simp

private theorem reads_field {f : Field} {name : String} {v : Value} (h : Written f (name, v))
    (d : Draft) :
    ∃ known, members.find? (·.name == name) = some known ∧ known.seen d = Field.stated d f ∧
      Reads (known.read d) v (Field.put d f) := by
  cases h with
  | pools hpools =>
    have hlist : List.Forall₂ (Reads pool) _ _ := hpools.flip.imp fun v e => reads_pool
    exact ⟨_, rfl, rfl, Shape.reads_slot (Shape.reads_list hlist) _ _ _ d⟩
  | submitResponse flag => exact ⟨_, rfl, rfl, Shape.reads_slot (Shape.reads_flag flag) _ _ _ d⟩
  | dialSeconds n => exact ⟨_, rfl, rfl, Shape.reads_slot (reads_limit n) _ _ _ d⟩
  | handshakeSeconds n => exact ⟨_, rfl, rfl, Shape.reads_slot (reads_limit n) _ _ _ d⟩
  | queueCapacity n => exact ⟨_, rfl, rfl, Shape.reads_slot (reads_limit n) _ _ _ d⟩
  | userAgent agent => exact ⟨_, rfl, rfl, Shape.reads_slot (Shape.reads_text agent) _ _ _ d⟩

private theorem fills_of_written {fields : List Field} {ms : List (String × Value)}
    (h : List.Forall₂ Written fields ms) (distinct : (fields.map Field.name).Nodup) (d : Draft)
    (fresh : ∀ f ∈ fields, Field.stated d f = false) :
    Shape.Fills members d ms (fields.foldl Field.put d) := by
  induction h generalizing d with
  | nil => exact .done d
  | @cons f m fields ms hwritten _ ih =>
    obtain ⟨hfirst, hrest⟩ := List.nodup_cons.mp (List.map_cons ▸ distinct)
    obtain ⟨hnew, hold⟩ := List.forall_mem_cons.mp fresh
    obtain ⟨known, hfind, hseen, hreads⟩ := reads_field hwritten d
    -- the fields behind it are of other names, so none of them is stated by it
    have hfresh : ∀ g ∈ fields, Field.stated (Field.put d f) g = false := by
      intro g hg
      have hne : f.name ≠ g.name := fun heq => hfirst (heq ▸ List.mem_map_of_mem hg)
      rw [Field.stated_put hne, hold g hg]
    exact .next hfind (hseen.trans hnew) hreads (ih hrest (Field.put d f) hfresh)

theorem foldl_put_perm {fields other : List Field} (h : fields.Perm other)
    (distinct : (fields.map Field.name).Nodup) (d : Draft) :
    fields.foldl Field.put d = other.foldl Field.put d :=
  Shape.foldl_perm (fun _ _ => Field.put_comm) h distinct d

theorem readBytes_of_written {fields : List Field} {ms : List (String × Value)}
    (h : List.Forall₂ Written fields ms) (distinct : (fields.map Field.name).Nodup)
    {document : List UInt8} (hvalue : Value.read document = .ok (.object ms)) :
    readBytes document = validate (fields.foldl Field.put Draft.empty).settings := by
  have hfills := fills_of_written h distinct Draft.empty fun f _ => by cases f <;> rfl
  rw [readBytes, (Shape.reads_record hfills).run hvalue]

private theorem ofNat_simple {n : Nat} (fits : n < UInt64.size) :
    (Value.ofNat n).integral = true ∧ (Value.ofNat n).depth = 0 := by
  obtain ⟨exact, hn⟩ := ofNat_of_lt fits
  rw [hn]
  exact ⟨rfl, rfl⟩

private theorem pair_simple (first second : String) {v w : Value}
    (hv : v.integral = true ∧ v.depth = 0) (hw : w.integral = true ∧ w.depth = 0) :
    (Value.object [(first, v), (second, w)]).integral = true ∧
      (Value.object [(first, v), (second, w)]).depth ≤ 1 := by
  simp [Value.integral, Value.integralMembers, Value.depth, Value.depthOfMembers, hv, hw]

private theorem pool_simple {e : Endpoint} {v : Value} (h : PoolWritten e v) :
    v.integral = true ∧ v.depth ≤ 1 := by
  have hhost : (Value.string e.host).integral = true ∧ (Value.string e.host).depth = 0 := ⟨rfl, rfl⟩
  have hnumber := ofNat_simple (portNumber_fits e)
  cases h with
  | hostFirst => exact pair_simple _ _ hhost hnumber
  | portFirst => exact pair_simple _ _ hnumber hhost

private theorem field_simple {f : Field} {name : String} {v : Value} (h : Written f (name, v)) :
    v.integral = true ∧ v.depth ≤ 2 := by
  have hnumber (n : UInt64) : (Value.ofNat n.toNat).integral = true ∧
      (Value.ofNat n.toNat).depth ≤ 2 := by
    obtain ⟨hintegral, hdepth⟩ := ofNat_simple n.toNat_lt_size
    exact ⟨hintegral, hdepth ▸ Nat.zero_le 2⟩
  cases h with
  | pools hpools =>
    have hvs := forall_right hpools fun _ _ => pool_simple
    rw [Value.integral, Value.integralItems_iff, Value.depth, Nat.succ_le_succ_iff,
      Value.depthOfItems_le_iff]
    exact ⟨fun v hv => (hvs v hv).1, fun v hv => (hvs v hv).2⟩
  | submitResponse flag => exact ⟨rfl, Nat.zero_le _⟩
  | dialSeconds n => exact hnumber n
  | handshakeSeconds n => exact hnumber n
  | queueCapacity n => exact hnumber n
  | userAgent agent => exact ⟨rfl, Nat.zero_le _⟩

theorem read_text_of_written {fields : List Field} {ms : List (String × Value)}
    (h : List.Forall₂ Written fields ms) :
    Value.read (Ascii.bytes (Value.object ms).text) = .ok (.object ms) := by
  have hms := forall_right h fun f m => field_simple
  refine Value.read_text ?_ ?_
  · rw [Value.integral, Value.integralMembers_iff]
    exact fun m hm => (hms m hm).1
  · have hdepth : Value.depthOfMembers ms ≤ 2 :=
      Value.depthOfMembers_le_iff.mpr fun m hm => (hms m hm).2
    rw [Value.depth, Value.depthLimit]
    omega

end PoolUplink.Settings.Document
