import PoolUplink.Proofs.Json.Repetition
import PoolUplink.Proofs.Settings.Document

/-!
# Documents in any form

A document states its settings by name or by position, and so it does each of its pools. In an
object the order makes no difference and members of other names are passed over, whatever values
they have; a known name that comes a second time is a fault at any of the two levels.
-/

set_option autoImplicit false
set_option relaxedAutoImplicit false

namespace PoolUplink.Settings.Document

open PoolUplink.Json
open PoolUplink.Json.Grammar (Begun Enclosed Schema)
open PoolUplink.Text.Numeral (decimal)

inductive PoolField where
  | host (host : String)
  | port (number : UInt16)
  deriving DecidableEq

namespace PoolField

def name : PoolField → String
  | host _ => "host"
  | port _ => "port"

def put (d : PoolDraft) : PoolField → PoolDraft
  | host h => { d with host := some h }
  | port n => { d with number := some n.toNat }

end PoolField

inductive PoolFieldText : PoolField → List Char → Prop
  | host {h : String} {cs : List Char} : Literal.Spells cs h → PoolFieldText (.host h) cs
  | port (n : UInt16) : PoolFieldText (.port n) (decimal n.toNat)

def poolSchema : Schema PoolField where
  names := ["host", "port"]
  name := PoolField.name
  Written := PoolFieldText

/-- A text of a pool, as an object or as an array of two items. -/
def PoolText (e : Endpoint) (cs : List Char) : Prop :=
  poolSchema.States [.host e.host, .port e.portNumber] cs

def PoolRepeats (cs : List Char) : Prop :=
  poolSchema.Repeats (fun _ _ => False) cs

inductive FieldText : Field → List Char → Prop
  | pools {ps : List Endpoint} {cs : List Char} : Enclosed '[' ']' PoolText ps cs →
      FieldText (.pools ps) cs
  | submitResponse (flag : Bool) :
      FieldText (.submitResponse flag) (if flag then "true" else "false").toList
  | dialSeconds (n : UInt64) : FieldText (.dialSeconds n) (decimal n.toNat)
  | handshakeSeconds (n : UInt64) : FieldText (.handshakeSeconds n) (decimal n.toNat)
  | queueCapacity (n : UInt64) : FieldText (.queueCapacity n) (decimal n.toNat)
  | userAgent {agent : String} {cs : List Char} : Literal.Spells cs agent →
      FieldText (.userAgent agent) cs

def schema : Schema Field where
  names := ["pools", "submit_response_from_server", "dial_timeout_secs",
    "handshake_timeout_secs", "event_channel_capacity", "user_agent"]
  name := Field.name
  Written := FieldText

private theorem exists_poolText (e : Endpoint) : ∃ cs, PoolText e cs := by
  have hfields : ∀ f ∈ [PoolField.host e.host, .port e.portNumber], ∃ cs, PoolFieldText f cs := by
    rw [List.forall_mem_cons, List.forall_mem_singleton]
    obtain ⟨host, hhost⟩ := Literal.exists_spells e.host
    exact ⟨⟨host, .host hhost⟩, _, .port e.portNumber⟩
  obtain ⟨cs, hcs⟩ := Grammar.exists_enclosed '[' ']' hfields
  exact ⟨cs, .array hcs (List.prefix_refl _)⟩

private theorem exists_fieldText (f : Field) : ∃ cs, FieldText f cs := by
  cases f with
  | pools ps =>
    obtain ⟨cs, hcs⟩ := Grammar.exists_enclosed '[' ']' fun e (_ : e ∈ ps) => exists_poolText e
    exact ⟨cs, .pools hcs⟩
  | submitResponse flag => exact ⟨_, .submitResponse flag⟩
  | dialSeconds n => exact ⟨_, .dialSeconds n⟩
  | handshakeSeconds n => exact ⟨_, .handshakeSeconds n⟩
  | queueCapacity n => exact ⟨_, .queueCapacity n⟩
  | userAgent agent =>
    obtain ⟨cs, hcs⟩ := Literal.exists_spells agent
    exact ⟨cs, .userAgent hcs⟩

def InPools (name : String) (cs : List Char) : Prop :=
  name = "pools" ∧ ∃ (pools : List Endpoint) (front gap pool : List Char),
    Begun PoolText pools front ∧ Gap gap ∧ PoolRepeats pool ∧ cs = '[' :: front ++ gap ++ pool

/-- What a document states: any of the settings. -/
structure Statement where
  pools : Option (List Endpoint)
  submitResponse : Option Bool
  dialSeconds : Option UInt64
  handshakeSeconds : Option UInt64
  queueCapacity : Option UInt64
  userAgent : Option String

private theorem reduceOption_sublist {α : Type} {os : List (Option α)} {as : List α}
    (h : List.Forall₂ (fun o a => ∀ b ∈ o, b = a) os as) : os.reduceOption.Sublist as := by
  induction h with
  | nil => exact .slnil
  | @cons o a os as ho _ ih =>
    cases o with
    | none => exact .cons a ih
    | some b =>
      obtain rfl := ho b rfl
      exact .cons_cons b ih

namespace Statement

def fields (s : Statement) : List Field :=
  [s.pools.map .pools, s.submitResponse.map .submitResponse, s.dialSeconds.map .dialSeconds,
    s.handshakeSeconds.map .handshakeSeconds, s.queueCapacity.map .queueCapacity,
    s.userAgent.map .userAgent].reduceOption

def settings (s : Statement) : Settings where
  pools := s.pools.getD standard.pools
  submitResponse := s.submitResponse.getD standard.submitResponse
  dialSeconds := s.dialSeconds.getD standard.dialSeconds
  handshakeSeconds := s.handshakeSeconds.getD standard.handshakeSeconds
  queueCapacity := s.queueCapacity.getD standard.queueCapacity
  userAgent := s.userAgent.getD standard.userAgent

/-- A document makes the statement, by name or by position. -/
def MadeBy (s : Statement) (document : String) : Prop :=
  ∃ before cs behind, Gap before ∧ schema.States s.fields cs ∧ Gap behind ∧
    document.toList = before ++ cs ++ behind

/-- There is a document for every statement. -/
theorem exists_madeBy (s : Statement) : ∃ document, s.MadeBy document := by
  have hparts : ∀ part ∈ s.fields.map some, ∃ cs, schema.Part part cs := by
    intro part hpart
    obtain ⟨f, -, rfl⟩ := List.mem_map.mp hpart
    obtain ⟨cs, hcs⟩ := exists_fieldText f
    obtain ⟨literal, hname⟩ := Literal.exists_spells f.name
    exact ⟨_, .field (.mk hname Gap.nil Gap.nil hcs)⟩
  obtain ⟨cs, hcs⟩ := Grammar.exists_enclosed '{' '}' hparts
  have hfields : (s.fields.map some).reduceOption = s.fields := by simp [List.reduceOption]
  refine ⟨String.ofList cs, [], cs, [], Gap.nil, .object hcs (.of_eq hfields), Gap.nil, ?_⟩
  simp

def draft (s : Statement) : Draft where
  pools := s.pools
  submitResponse := s.submitResponse
  dialSeconds := s.dialSeconds.map UInt64.toNat
  handshakeSeconds := s.handshakeSeconds.map UInt64.toNat
  queueCapacity := s.queueCapacity.map UInt64.toNat
  userAgent := s.userAgent

private theorem foldl_put (s : Statement) : s.fields.foldl Field.put Draft.empty = s.draft := by
  obtain ⟨pools, submitResponse, dialSeconds, handshakeSeconds, queueCapacity, userAgent⟩ := s
  cases pools <;> cases submitResponse <;> cases dialSeconds <;> cases handshakeSeconds <;>
    cases queueCapacity <;> cases userAgent <;> rfl

private theorem settings_draft (s : Statement) : s.draft.settings = s.settings := by
  simp [draft, settings, Draft.settings, Option.map_map, Function.comp_def]

private theorem names_sublist (s : Statement) :
    (s.fields.map schema.name).Sublist schema.names := by
  rw [fields, ← List.reduceOption_map]
  apply reduceOption_sublist
  have stated {α : Type} {f : α → Field} {name : String} (o : Option α)
      (h : ∀ a, (f a).name = name) : ∀ b ∈ (o.map f).map schema.name, b = name := by
    intro b hb
    rw [Option.map_map, Option.mem_map] at hb
    obtain ⟨a, -, rfl⟩ := hb
    exact h a
  exact .cons (stated _ fun _ => rfl) (.cons (stated _ fun _ => rfl) (.cons (stated _ fun _ => rfl)
    (.cons (stated _ fun _ => rfl) (.cons (stated _ fun _ => rfl) (.cons (stated _ fun _ => rfl)
      .nil)))))

private theorem distinct_fields (s : Statement) : (s.fields.map schema.name).Nodup :=
  s.names_sublist.nodup (by decide)

end Statement

/-- A document in which a known member comes a second time, whatever follows. -/
def Repetitive (document : String) : Prop :=
  ∃ before cs behind, Gap before ∧ schema.Repeats InPools cs ∧
    document.toList = before ++ cs ++ behind

private theorem fits_pool : Shape.Fits poolMembers poolSchema PoolField.put where
  names := rfl
  distinct := by decide
  reads f := by
    cases f with
    | host h =>
      refine ⟨_, .head _, rfl, ?_⟩
      rintro state cs ⟨hspells⟩
      exact (accepts_text hspells).map _
    | port n =>
      refine ⟨_, .tail _ (.head _), rfl, ?_⟩
      rintro state cs ⟨⟩
      exact (accepts_natural n.toNat_lt_size
        (Nat.lt_trans n.toNat_lt_size (by decide))).map _
  seen m hm f state := by
    simp only [poolMembers, List.mem_cons, List.not_mem_nil, or_false] at hm
    rcases hm with rfl | rfl
    all_goals cases f <;> rfl
  comm f g h state := by
    cases f <;> cases g <;> first | rfl | exact absurd rfl h

private theorem accepts_pool {e : Endpoint} {cs : List Char} (h : PoolText e cs) :
    Accepts pool cs e := by
  have distinct : ([PoolField.host e.host, .port e.portNumber].map poolSchema.name).Nodup :=
    show ["host", "port"].Nodup by decide
  have fresh : ∀ m ∈ poolMembers, m.seen ⟨none, none⟩ = false := by
    simp [poolMembers, Shape.slot]
  refine (fits_pool.accepts_record h distinct fresh).filterMap ?_
  simp [PoolField.put]

private theorem refuses_pool {cs : List Char} (h : PoolRepeats cs) : Refuses pool cs :=
  (fits_pool.refuses_record (fun _ _ _ _ => False.elim) h ⟨none, none⟩).filterMap

private theorem fits_settings : Shape.Fits members schema Field.put where
  names := rfl
  distinct := by decide
  reads f := by
    have limit (n : UInt64) : Accepts (Shape.natural UInt64.size) (decimal n.toNat) n.toNat :=
      accepts_natural n.toNat_lt_size n.toNat_lt_size
    cases f with
    | pools ps =>
      refine ⟨_, .head _, rfl, ?_⟩
      rintro state cs ⟨hpools⟩
      exact (accepts_list hpools fun _ _ => accepts_pool).map _
    | submitResponse flag =>
      refine ⟨_, .tail _ (.head _), rfl, ?_⟩
      rintro state cs ⟨⟩
      exact (accepts_flag flag).map _
    | dialSeconds n =>
      refine ⟨_, .tail _ (.tail _ (.head _)), rfl, ?_⟩
      rintro state cs ⟨⟩
      exact (limit n).map _
    | handshakeSeconds n =>
      refine ⟨_, .tail _ (.tail _ (.tail _ (.head _))), rfl, ?_⟩
      rintro state cs ⟨⟩
      exact (limit n).map _
    | queueCapacity n =>
      refine ⟨_, .tail _ (.tail _ (.tail _ (.tail _ (.head _)))), rfl, ?_⟩
      rintro state cs ⟨⟩
      exact (limit n).map _
    | userAgent agent =>
      refine ⟨_, .tail _ (.tail _ (.tail _ (.tail _ (.tail _ (.head _))))), rfl, ?_⟩
      intro state cs h
      cases h with
      | userAgent hspells => exact (accepts_text hspells).map _
  seen m hm f state := by
    simp only [members, List.mem_cons, List.not_mem_nil, or_false] at hm
    rcases hm with rfl | rfl | rfl | rfl | rfl | rfl
    all_goals cases f <;> rfl
  comm f g h state := Field.put_comm h state

private theorem refuses_inPools {m : Shape.Member Draft} (hm : m ∈ members) (state : Draft)
    {cs : List Char} (h : InPools m.name cs) : Refuses (m.read state) cs := by
  obtain ⟨hname, pools, front, gap, pool, hbegun, hgap, hrepeats, rfl⟩ := h
  rw [fits_settings.unique hm (.head _) hname]
  exact (refuses_list hbegun (fun _ _ => accepts_pool) hgap (refuses_pool hrepeats)).map

private theorem bytes_of_toList {document : String} {cs : List Char} (h : document.toList = cs) :
    Ascii.bytes document = utf8 cs := by
  rw [bytes_eq_utf8, h]

private theorem read_of_madeBy {s : Statement} {document : String} (h : s.MadeBy document) :
    Document.read document = validate s.settings := by
  obtain ⟨before, cs, behind, hbefore, hstates, hbehind, hdocument⟩ := h
  have fresh : ∀ m ∈ members, m.seen Draft.empty = false := by
    simp [members, Shape.slot, Draft.empty]
  have hread := (fits_settings.accepts_record hstates s.distinct_fields fresh).run hbefore hbehind
  rw [s.foldl_put] at hread
  rw [Document.read, bytes_of_toList hdocument, readBytes, hread]
  dsimp only
  rw [s.settings_draft]

private theorem read_of_repetitive {document : String} (h : Repetitive document) :
    Document.read document = .error (.document .misshapen) := by
  obtain ⟨before, cs, behind, hbefore, hrepeats, hdocument⟩ := h
  have hrefused := fits_settings.refuses_record
    (fun m hm state _ => refuses_inPools hm state) hrepeats Draft.empty
  rw [Document.read, bytes_of_toList hdocument, readBytes, hrefused.run hbefore behind]

/-- Documents by name and by position. A document that states pools is read as exactly what it
states, with the standard for everything else; one without pools, or with an empty list of them,
is refused for that; and one in which a known member comes a second time, of the settings or of a
pool, is refused as misshapen. -/
theorem read_of_forms (document : String) :
    (∀ s : Statement, s.MadeBy document →
      (s.settings.pools ≠ [] → Document.read document = .ok s.settings) ∧
        (s.settings.pools = [] → Document.read document = .error .noPools)) ∧
      (Repetitive document → Document.read document = .error (.document .misshapen)) := by
  refine ⟨?_, read_of_repetitive⟩
  intro s h
  rw [read_of_madeBy h, validate]
  constructor
  · intro some_pool
    rw [if_neg (by simpa using some_pool)]
  · intro no_pool
    rw [if_pos (by simpa using no_pool)]

def sampleObject : String :=
  " \x7b\"x\":[\x7b\x7d,null ],\"\\u0070ools\" :" ++
    "[\x7b\"port\":1,\"host\":\"\\uD83D\\uDE00\"\x7d, [\"b\",65535]],\"dial_timeout_secs\":0\x7d"

def sampleStatement : Statement :=
  ⟨some [⟨"😀", 1⟩, ⟨"b", 65535⟩], none, some 0, none, none, none⟩

private theorem samplePool_byPosition : PoolText ⟨"b", 65535⟩ "[\"b\",65535]".toList := by
  have hhost : PoolFieldText (.host "b") "\"b\"".toList :=
    .host (Literal.spells_of_kept (by decide) rfl)
  have hport : PoolFieldText (.port 65535) "65535".toList := .port 65535
  exact .array (.commas (.more Gap.nil hhost Gap.nil (.last Gap.nil hport Gap.nil)))
    (List.prefix_refl _)

private theorem samplePool_byName :
    PoolText ⟨"😀", 1⟩ "\x7b\"port\":1,\"host\":\"\\uD83D\\uDE00\"\x7d".toList := by
  have hcontent : Literal.Denotes "\\uD83D\\uDE00".toList ['😀'] :=
    @Literal.Denotes.pair ['D', '8', '3', 'D'] ['D', 'E', '0', '0'] [] [] '😀' (by decide)
      ⟨[13, 8, 3, 13], by decide⟩ ⟨[13, 14, 0, 0], by decide⟩ .nil
  have hface : Literal.Spells "\"\\uD83D\\uDE00\"".toList "😀" :=
    ⟨_, by decide, (by decide : "😀".toList = ['😀']) ▸ hcontent⟩
  have hport : poolSchema.Part (some (.port 1)) "\"port\":1".toList :=
    .field (.mk (Literal.spells_of_kept (by decide) rfl) Gap.nil Gap.nil (.port 1))
  have hhost : poolSchema.Part (some (.host "😀")) "\"host\":\"\\uD83D\\uDE00\"".toList :=
    .field (.mk (Literal.spells_of_kept (by decide) rfl) Gap.nil Gap.nil (.host hface))
  exact .object (.commas (.more Gap.nil hport Gap.nil (.last Gap.nil hhost Gap.nil))) (.swap ..)

private theorem sampleObject_made : sampleStatement.MadeBy sampleObject := by
  have hblank : Gap [' '] := by decide
  have hname : Literal.Spells "\"x\"".toList "x" := Literal.spells_of_kept (by decide) rfl
  have hvalue : Grammar.Derives .value "[\x7b\x7d,null ]".toList :=
    .array (.moreItems Gap.nil (.emptyObject Gap.nil) Gap.nil
      (.lastItem Gap.nil (.word (by decide : "null" ∈ _)) hblank))
  have hother : schema.Part none "\"x\":[\x7b\x7d,null ]".toList :=
    .unknown (by decide) (.mk hname Gap.nil Gap.nil hvalue)
  have hcontent : Literal.Denotes "\\u0070ools".toList "pools".toList :=
    @Literal.Denotes.numbered ['0', '0', '7', '0'] ['o', 'o', 'l', 's'] ['o', 'o', 'l', 's'] 'p'
      ⟨[0, 0, 7, 0], by decide⟩ (Literal.denotes_of_kept (by decide))
  have hpools : schema.Part (some (.pools [⟨"😀", 1⟩, ⟨"b", 65535⟩]))
      ("\"\\u0070ools\" :" ++
        "[\x7b\"port\":1,\"host\":\"\\uD83D\\uDE00\"\x7d, [\"b\",65535]]").toList :=
    .field (.mk ⟨_, rfl, hcontent⟩ hblank Gap.nil (.pools (.commas (.more Gap.nil samplePool_byName
      Gap.nil (.last hblank samplePool_byPosition Gap.nil)))))
  have hseconds : schema.Part (some (.dialSeconds 0)) "\"dial_timeout_secs\":0".toList :=
    .field (.mk (Literal.spells_of_kept (by decide) rfl) Gap.nil Gap.nil (.dialSeconds 0))
  have parts : Enclosed '{' '}' schema.Part _ _ := .commas (.more Gap.nil hother Gap.nil
    (.more Gap.nil hpools Gap.nil (.last Gap.nil hseconds Gap.nil)))
  exact ⟨[' '], _, [], hblank, .object parts (List.Perm.refl _), Gap.nil, by decide +kernel⟩

def sampleArray : String := "[[[\"b\",65535]],true]\n"

private theorem sampleArray_made :
    (⟨some [⟨"b", 65535⟩], some true, none, none, none, none⟩ : Statement).MadeBy sampleArray := by
  have hpools : FieldText (.pools [⟨"b", 65535⟩]) "[[\"b\",65535]]".toList :=
    .pools (.commas (.last Gap.nil samplePool_byPosition Gap.nil))
  exact ⟨[], _, ['\n'], Gap.nil, .array (.commas (.more Gap.nil hpools Gap.nil
    (.last Gap.nil (.submitResponse true) Gap.nil))) (by decide), by decide, by decide +kernel⟩

private theorem sampleEmpty_made :
    (⟨none, none, none, none, none, none⟩ : Statement).MadeBy "\x7b\x7d" :=
  ⟨[], _, [], Gap.nil, .object (.nil Gap.nil) (List.Perm.refl _), Gap.nil, by decide +kernel⟩

def sampleRepetition : String := "[[\x7b\"port\":1,\"port\":1\x7d]]"

private theorem sampleRepetition_repetitive : Repetitive sampleRepetition := by
  have hname : Literal.Spells "\"port\"".toList "port" := Literal.spells_of_kept (by decide) rfl
  have hport : poolSchema.Part (some (.port 1)) "\"port\":1".toList :=
    .field (.mk hname Gap.nil Gap.nil (.port 1))
  have hpool : PoolRepeats "\x7b\"port\":1,\"port\"".toList :=
    .again (.more Gap.nil hport Gap.nil .nil) (by decide : PoolField.port 1 ∈ _) Gap.nil hname
  have hinside : InPools "pools" "[\x7b\"port\":1,\"port\"".toList :=
    ⟨rfl, [], [], [], _, .nil, Gap.nil, hpool, rfl⟩
  exact ⟨[], _, ":1\x7d]]".toList, Gap.nil, .inField .nil (by decide) Gap.nil hinside,
    by decide +kernel⟩

theorem read_of_forms_of_samples :
    Document.read sampleObject = .ok sampleStatement.settings ∧
      Document.read sampleArray =
        .ok { standard with pools := [⟨"b", 65535⟩], submitResponse := true } ∧
      Document.read "\x7b\x7d" = .error .noPools ∧
      Document.read sampleRepetition = .error (.document .misshapen) := by
  refine ⟨?_, ?_, ?_, ?_⟩
  · exact ((read_of_forms sampleObject).1 _ sampleObject_made).1 (List.cons_ne_nil _ _)
  · exact ((read_of_forms sampleArray).1 _ sampleArray_made).1 (List.cons_ne_nil _ _)
  · exact ((read_of_forms "\x7b\x7d").1 _ sampleEmpty_made).2 rfl
  · exact (read_of_forms sampleRepetition).2 sampleRepetition_repetitive

end PoolUplink.Settings.Document
