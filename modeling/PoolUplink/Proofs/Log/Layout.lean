import PoolUplink.Log.Event
import Mathlib.Data.List.Basic
import Mathlib.Data.List.TakeWhile

/-!
# How events are laid out

An event is printed as its level, its target and its last message, and below them all its other
values but those of the bridge, each once and in their order. So values of the bridge count only
where the target is the bridge, and what comes over the bridge is printed as if it had been emitted
with the target that it carries.
-/

set_option autoImplicit false
set_option relaxedAutoImplicit false

namespace PoolUplink.Log

/-- The names of a threshold, in small letters: a level or its rank, or a word for none. -/
def Threshold.names : Threshold → List String
  | some .error => ["error", "1"]
  | some .warn => ["warn", "2"]
  | some .info => ["info", "3"]
  | some .debug => ["debug", "4"]
  | some .trace => ["trace", "5"]
  | none => ["off", "0"]

namespace Event

/-- Fields in a row: each as its name and its value, in their order, with commas between them. -/
inductive Listed : List (String × String) → String → Prop
  | last (name value : String) : Listed [(name, value)] (name ++ "=" ++ value)
  | more (name value : String) {rest : List (String × String)} {text : String} :
      Listed rest text → Listed ((name, value) :: rest) (name ++ "=" ++ value ++ ", " ++ text)

/-- What stands below the message: a line with the fields in a row, if there are any. -/
inductive Below : List (String × String) → String → Prop
  | nothing : Below [] ""
  | line {fields : List (String × String)} {text : String} : Listed fields text →
      Below fields ("\n\x1b[90m               " ++ text ++ "\x1b[0m")

/-- A value is one of those that the bridge adds. -/
def OfBridge (v : String × String) : Prop := "log.".toList <+: v.1.toList

instance (v : String × String) : Decidable (OfBridge v) :=
  inferInstanceAs (Decidable (_ <+: _))

def messages (e : Event) : List String :=
  (e.values.filter (·.1 = "message")).map Prod.snd

def shown (e : Event) : List (String × String) :=
  e.values.filter fun v => v.1 ≠ "message" ∧ ¬ OfBridge v

inductive Origin (e : Event) : String → Prop
  | own {part : String} : e.target = "stratum_agent::" ++ part → Origin e part
  | other : ¬ "stratum_agent::".toList <+: e.target.toList → e.target ≠ "log" → Origin e e.target
  | carried {target : String} : e.target = "log" → e.values.lookup "log.target" = some target →
      Origin e target
  | uncarried : e.target = "log" → e.values.lookup "log.target" = none → Origin e "log"

def Laid (e : Event) (text : String) : Prop :=
  ∃ origin below : String, e.Origin origin ∧ Below e.shown below ∧
    text = Line.level e.level ++ " " ++ origin ++ ": " ++ e.messages.getLast?.getD "" ++ below ++
      "\n"

/-- An event with a message and nothing else. -/
def saying (level : Level) (target message : String) : Event :=
  ⟨level, target, [("message", message)]⟩

/-- An event is a record of another part of the program that has come over the bridge: besides its
message it has values of the bridge alone, and its own target is one of them. -/
structure Bridges (e : Event) (level : Level) (target message : String) : Prop where
  level : e.level = level
  bridge : e.target = "log"
  message : e.messages = [message]
  added : ∀ v ∈ e.values, v.1 = "message" ∨ OfBridge v
  origin : e.values.lookup "log.target" = some target

section Record

private theorem place_message (r : Record) (message : String) :
    place r ("message", message) = { r with message } := rfl

private theorem place_field {v : String × String} (h : v.1 ≠ "message") (r : Record) :
    place r v = { r with fields := r.fields ++ [v] } := if_neg h

/-- What becomes of a record when values are put in their places. -/
theorem foldl_place (r : Record) (values : List (String × String)) :
    values.foldl place r =
      ⟨r.level, r.target,
        ((values.filter (·.1 = "message")).map Prod.snd).getLast?.getD r.message,
        r.fields ++ values.filter (·.1 ≠ "message")⟩ := by
  induction values generalizing r with
  | nil => simp
  | cons v values ih =>
    by_cases h : v.1 = "message"
    · obtain ⟨name, message⟩ := v
      obtain rfl : name = "message" := h
      -- the message put in now is what stands if none follows
      rw [List.foldl_cons, place_message, ih, List.filter_cons_of_pos (by simp),
        List.filter_cons_of_neg (by simp), List.map_cons, List.getLast?_cons, Option.getD_some]
    · rw [List.foldl_cons, place_field h, ih, List.filter_cons_of_neg (by simpa using h),
        List.filter_cons_of_pos (by simpa using h), List.append_assoc, List.singleton_append]

private theorem record_eq (e : Event) :
    e.record = ⟨e.level, e.target, e.messages.getLast?.getD "",
      e.values.filter (·.1 ≠ "message")⟩ :=
  foldl_place _ _

private theorem record_emitted {r : Record} (fields : ∀ f ∈ r.fields, f.1 ≠ "message") :
    (Event.mk r.level r.target (("message", r.message) :: r.fields)).record = r := by
  have hmessages : r.fields.filter (·.1 = "message") = [] := by
    rw [List.filter_eq_nil_iff]
    simpa using fields
  have hfields : r.fields.filter (·.1 ≠ "message") = r.fields := by
    rw [List.filter_eq_self]
    simpa using fields
  rw [record_eq, messages, List.filter_cons_of_pos (by simp), List.filter_cons_of_neg (by simp),
    hmessages, hfields]
  rfl

private theorem isHidden_eq (v : String × String) : Line.isHidden v.1 = decide (OfBridge v) := by
  rw [Bool.eq_iff_iff, decide_eq_true_eq, Line.isHidden, List.isPrefixOf_iff_prefix, OfBridge]

private theorem filter_record_fields (e : Event) :
    (e.record.fields.filter fun f => !Line.isHidden f.1) = e.shown := by
  rw [record_eq, shown, List.filter_filter]
  congr 1
  funext v
  rw [isHidden_eq, Bool.eq_iff_iff]
  simp [and_comm]

private theorem lookup_filter_message (values : List (String × String)) :
    (values.filter (·.1 ≠ "message")).lookup "log.target" = values.lookup "log.target" := by
  induction values with
  | nil => rfl
  | cons v values ih =>
    obtain ⟨name, value⟩ := v
    by_cases hm : name = "message"
    · subst hm
      simpa [List.lookup_cons] using ih
    · rw [List.filter_cons_of_pos (by simpa using hm), List.lookup_cons, List.lookup_cons, ih]

end Record

section Layout

private theorem fieldList_of_listed {fields : List (String × String)} {text : String}
    (h : Listed fields text) : fields ≠ [] ∧ Line.fieldList fields = text := by
  induction h with
  | last name value => exact ⟨List.cons_ne_nil _ _, String.intercalate_singleton⟩
  | more name value _ ih =>
    obtain ⟨hne, rfl⟩ := ih
    refine ⟨List.cons_ne_nil _ _, ?_⟩
    rw [Line.fieldList, List.map_cons, String.intercalate_cons_of_ne_nil (by simpa using hne),
      Line.fieldList]

private theorem listed_fieldList {fields : List (String × String)} (h : fields ≠ []) :
    Listed fields (Line.fieldList fields) := by
  induction fields with
  | nil => exact absurd rfl h
  | cons f rest ih =>
    obtain ⟨name, value⟩ := f
    by_cases hrest : rest = []
    · subst hrest
      rw [Line.fieldList, List.map_singleton, String.intercalate_singleton]
      exact .last name value
    · rw [Line.fieldList, List.map_cons, String.intercalate_cons_of_ne_nil (by simpa using hrest)]
      exact .more name value (ih hrest)

private theorem below_iff {e : Event} {text : String} :
    Below e.shown text ↔ Line.fieldLine e.record.fields = text := by
  unfold Line.fieldLine
  rw [filter_record_fields]
  constructor
  · intro h
    generalize e.shown = fields at h
    cases h with
    | nothing => rfl
    | line hlisted =>
      obtain ⟨hne, rfl⟩ := fieldList_of_listed hlisted
      obtain ⟨f, rest, rfl⟩ := List.exists_cons_of_ne_nil hne
      rfl
  · rintro rfl
    cases hfields : e.shown with
    | nil => exact .nothing
    | cons f rest => exact .line (listed_fieldList (List.cons_ne_nil _ _))

private theorem shortTarget_own (part : String) (fields : List (String × String)) :
    Line.shortTarget ("stratum_agent::" ++ part) fields = part := by
  have htarget : ("stratum_agent::" ++ part).toList = Line.ownScope ++ part.toList :=
    String.toList_append
  have hstart : Line.ownScope.isPrefixOf (Line.ownScope ++ part.toList) = true :=
    List.isPrefixOf_iff_prefix.mpr (List.prefix_append _ _)
  rw [Line.shortTarget, htarget, if_pos hstart, List.drop_left, String.ofList_toList]

private theorem shortTarget_foreign {target : String}
    (foreign : ¬ "stratum_agent::".toList <+: target.toList) (fields : List (String × String)) :
    Line.shortTarget target fields =
      if target = "log" then (fields.lookup "log.target").getD target else target := by
  have hstart : ¬ Line.ownScope.isPrefixOf target.toList = true := by
    rwa [List.isPrefixOf_iff_prefix]
  rw [Line.shortTarget, if_neg hstart]
  rfl

private theorem origin_iff {e : Event} {text : String} :
    e.Origin text ↔ Line.shortTarget e.target e.record.fields = text := by
  have hlookup : e.record.fields.lookup "log.target" = e.values.lookup "log.target" := by
    rw [record_eq]
    exact lookup_filter_message e.values
  have hlog : ¬ "stratum_agent::".toList <+: "log".toList := by decide
  constructor
  · intro h
    cases h with
    | own htarget => rw [htarget, shortTarget_own]
    | other hforeign hbridge => rw [shortTarget_foreign hforeign, if_neg hbridge]
    | carried hbridge hcarried =>
      rw [hbridge, shortTarget_foreign hlog, if_pos rfl, hlookup, hcarried, Option.getD_some]
    | uncarried hbridge hcarried =>
      rw [hbridge, shortTarget_foreign hlog, if_pos rfl, hlookup, hcarried, Option.getD_none]
  · rintro rfl
    by_cases hown : "stratum_agent::".toList <+: e.target.toList
    · obtain ⟨part, hpart⟩ := hown
      have htarget : e.target = "stratum_agent::" ++ String.ofList part :=
        String.toList_inj.mp (hpart.symm.trans (by simp))
      have hshort := shortTarget_own (String.ofList part) e.record.fields
      rw [← htarget] at hshort
      rw [hshort]
      exact .own htarget
    by_cases hbridge : e.target = "log"
    · rw [shortTarget_foreign hown, if_pos hbridge, hlookup]
      cases hcarried : e.values.lookup "log.target" with
      | some target => exact .carried hbridge hcarried
      | none =>
        rw [Option.getD_none, hbridge]
        exact .uncarried hbridge hcarried
    · rw [shortTarget_foreign hown, if_neg hbridge]
      exact .other hown hbridge

theorem laid_iff {e : Event} {text : String} : e.Laid text ↔ Line.render e.record = text := by
  have hrender : Line.render e.record = Line.level e.level ++ " " ++
      Line.shortTarget e.target e.record.fields ++ ": " ++ e.messages.getLast?.getD "" ++
        Line.fieldLine e.record.fields ++ "\n" := by
    rw [Line.render, record_eq]
  rw [hrender]
  constructor
  · rintro ⟨origin, below, horigin, hbelow, rfl⟩
    rw [origin_iff.mp horigin, below_iff.mp hbelow]
  · rintro rfl
    exact ⟨_, _, origin_iff.mpr rfl, below_iff.mpr rfl, rfl⟩

private theorem print?_of_laid {e : Event} {text : String} (h : e.Laid text) (filter : Filter) :
    e.print? filter = if filter.shows e.level e.target then some text else none := by
  rw [print?, Line.print?, laid_iff.mp h, record_eq]

end Layout

section Filters

private theorem ofText?_of_name {env : String} {threshold : Threshold}
    (h : lower env ∈ threshold.names) : Threshold.ofText? env = some threshold := by
  cases threshold with
  | none => rcases List.mem_pair.mp h with h | h <;> simp only [Threshold.ofText?, h]
  | some level =>
    cases level <;> rcases List.mem_pair.mp h with h | h <;> simp only [Threshold.ofText?, h]

private theorem ofText_of_name {env : String} {threshold : Threshold}
    (h : lower env ∈ threshold.names) : Filter.ofText env = ⟨"", threshold⟩ := by
  have bare : ∀ name ∈ threshold.names, '=' ∉ name.toList := by
    cases threshold with
    | none => decide
    | some level => cases level <;> decide
  have hequals : ∀ c ∈ env.toList, (c != '=') = true := by
    intro c hc
    rw [bne_iff_ne]
    rintro rfl
    apply bare _ h
    rw [lower, String.toList_map]
    exact List.mem_map_of_mem hc
  have hdrop : env.toList.dropWhile (· != '=') = [] := List.dropWhile_eq_nil_iff.mpr hequals
  simp only [Filter.ofText, hdrop, ofText?_of_name h]

private theorem shows_of_unscoped (threshold : Threshold) (level : Level) (target : String) :
    (Filter.mk "" threshold).shows level target = threshold.admits level := by
  simp [Filter.shows]

end Filters

section Printing

private theorem Bridges.laid {e : Event} {level : Level} {target message : String}
    (h : e.Bridges level target message) :
    e.Laid (Line.level level ++ " " ++ target ++ ": " ++ message ++ "\n") := by
  have hshown : e.shown = [] := by
    rw [shown, List.filter_eq_nil_iff]
    intro v hv
    simpa [imp_iff_not_or] using h.added v hv
  refine ⟨target, "", .carried h.bridge h.origin, hshown ▸ .nothing, ?_⟩
  rw [h.level, h.message]
  simp

private theorem laid_saying (level : Level) {target : String} (message : String)
    (foreign : ¬ "stratum_agent::".toList <+: target.toList) :
    (saying level target message).Laid
      (Line.level level ++ " " ++ target ++ ": " ++ message ++ "\n") := by
  have horigin : (saying level target message).Origin target := by
    by_cases hbridge : target = "log"
    · subst hbridge
      exact .uncarried rfl rfl
    · exact .other foreign hbridge
  exact ⟨target, "", horigin, .nothing, by simp [messages, saying]⟩

private theorem shown_eq (e : Event) :
    e.shown = (e.values.filter (¬ OfBridge ·)).filter (·.1 ≠ "message") := by
  rw [shown, List.filter_filter]
  congr 1
  funext v
  simp

private theorem messages_eq (e : Event) :
    e.messages = ((e.values.filter (¬ OfBridge ·)).filter (·.1 = "message")).map Prod.snd := by
  have unbridged (v : String × String) (h : v.1 = "message") : ¬ OfBridge v := by
    rw [OfBridge, h]
    decide
  rw [messages, List.filter_filter]
  congr 2
  funext v
  simpa using unbridged v

/-- Values of the bridge leave no trace in an event that has not come over it. -/
theorem Laid.congr {e e' : Event} {text : String} (h : e.Laid text) (native : e.target ≠ "log")
    (level : e'.level = e.level) (target : e'.target = e.target)
    (values : e'.values.filter (¬ OfBridge ·) = e.values.filter (¬ OfBridge ·)) :
    e'.Laid text := by
  obtain ⟨origin, below, horigin, hbelow, rfl⟩ := h
  have hshown : e'.shown = e.shown := by rw [shown_eq, values, ← shown_eq]
  have hmessages : e'.messages = e.messages := by rw [messages_eq, values, ← messages_eq]
  refine ⟨origin, below, ?_, hshown ▸ hbelow, by rw [level, hmessages]⟩
  cases horigin with
  | own htarget => exact .own (target.trans htarget)
  | other hforeign hbridge =>
    rw [← target]
    exact .other (target ▸ hforeign) (target ▸ hbridge)
  | carried hbridge _ => exact absurd hbridge native
  | uncarried hbridge _ => exact absurd hbridge native

private theorem record_bridged (level : Level) (target message : String) :
    (Event.mk level "log" [("message", message), ("log.target", target)]).record =
      Line.bridged level target message := by
  have fields : ∀ f ∈ (Line.bridged level target message).fields, f.1 ≠ "message" := by
    intro f hf
    obtain rfl := List.mem_singleton.mp hf
    exact (by decide : "log.target" ≠ "message")
  exact record_emitted fields

private theorem bridges_bridged (level : Level) (target message : String) :
    (Event.mk level "log" [("message", message), ("log.target", target)]).Bridges level target
      message := by
  refine ⟨rfl, rfl, rfl, ?_, rfl⟩
  intro v hv
  rcases List.mem_pair.mp hv with rfl | rfl
  · exact Or.inl rfl
  · exact Or.inr (by decide : "log.".toList <+: "log.target".toList)

private theorem print?_of_named {env : String} {threshold : Threshold}
    (named : lower env ∈ threshold.names) {e : Event} {text : String} (h : e.Laid text) :
    e.print? (.ofText env) = if threshold.admits e.level then some text else none := by
  rw [print?_of_laid h, ofText_of_name named, shows_of_unscoped]

/-- Where one threshold holds for all targets, what has come over the bridge prints as an event
with the target that it carries and its message alone: the line of these, if its level is shown.
Values of the bridge make no difference to an event whose target is another. And whatever an event
is, it prints the lines that it is laid out in, or nothing if it is not shown. -/
theorem printed_as_native :
    (∀ (env : String) (threshold : Threshold), lower env ∈ threshold.names →
      ∀ (e : Event) (level : Level) (target message : String), e.Bridges level target message →
        ¬ "stratum_agent::".toList <+: target.toList →
          e.print? (.ofText env) = (saying level target message).print? (.ofText env) ∧
            Line.print? (.ofText env) (Line.bridged level target message) =
              (saying level target message).print? (.ofText env) ∧
            (saying level target message).print? (.ofText env) =
              if threshold.admits level then
                some (Line.level level ++ " " ++ target ++ ": " ++ message ++ "\n")
              else none) ∧
    (∀ (filter : Filter) (e e' : Event), e.target ≠ "log" → e'.level = e.level →
      e'.target = e.target →
        e'.values.filter (¬ OfBridge ·) = e.values.filter (¬ OfBridge ·) →
          e'.print? filter = e.print? filter) ∧
    ∀ (filter : Filter) (e : Event),
      (∀ text, e.print? filter = some text ↔
        filter.shows e.level e.target = true ∧ e.Laid text) ∧
      (e.print? filter = none ↔ filter.shows e.level e.target = false) := by
  refine ⟨?_, ?_, ?_⟩
  · intro env threshold named e level target message bridges foreign
    have hnative := print?_of_named named (laid_saying level message foreign)
    have hbridged := print?_of_named named bridges.laid
    have hrecord := print?_of_named named (bridges_bridged level target message).laid
    rw [bridges.level] at hbridged
    rw [print?, record_bridged] at hrecord
    exact ⟨hbridged.trans hnative.symm, hrecord.trans hnative.symm, hnative⟩
  · intro filter e e' native level target values
    have hlaid : e.Laid (Line.render e.record) := laid_iff.mpr rfl
    rw [print?_of_laid hlaid, print?_of_laid (hlaid.congr native level target values), level,
      target]
  · intro filter e
    have hprint := print?_of_laid (laid_iff.mpr (Eq.refl (Line.render e.record))) filter
    constructor
    · intro text
      rw [hprint, laid_iff]
      cases filter.shows e.level e.target <;> simp
    · rw [hprint]
      cases filter.shows e.level e.target <;> simp

def sampleBridged : Event :=
  ⟨.error, "log", [("message", "two\nlines"), ("log.target", "hyper::client"),
    ("log.module_path", "hyper::client"), ("log.line", "7")]⟩

def sampleNative : Event := ⟨.info, "pool", [("count", "2"), ("message", "m"), ("ok", "true")]⟩

def sampleMarked : Event :=
  { sampleNative with values := [("log.line", "7"), ("count", "2"), ("message", "m"),
      ("log.target", "x"), ("ok", "true")] }

theorem printed_as_native_of_samples :
    lower "Warn" ∈ Threshold.names (some .warn) ∧
      sampleBridged.Bridges .error "hyper::client" "two\nlines" ∧
      sampleBridged.print? (.ofText "Warn") =
        some "\x1b[31mERROR\x1b[0m hyper::client: two\nlines\n" ∧
      sampleMarked.values.filter (¬ OfBridge ·) = sampleNative.values.filter (¬ OfBridge ·) ∧
      sampleMarked.print? .standard = sampleNative.print? .standard ∧
      sampleNative.Laid
        "\x1b[32mINFO \x1b[0m pool: m\n\x1b[90m               count=2, ok=true\x1b[0m\n" := by
  obtain ⟨hbridge, hmarked, hlaid⟩ := printed_as_native
  have named : lower "Warn" ∈ Threshold.names (some .warn) := by decide +kernel
  have bridges : sampleBridged.Bridges .error "hyper::client" "two\nlines" := by
    refine ⟨rfl, rfl, rfl, ?_, rfl⟩
    decide
  have unmarked : sampleMarked.values.filter (¬ OfBridge ·) =
      sampleNative.values.filter (¬ OfBridge ·) := by decide
  obtain ⟨hsame, -, hline⟩ := hbridge _ _ named _ _ _ _ bridges (by decide)
  refine ⟨named, bridges, hsame.trans (hline.trans (by decide)), unmarked, ?_, ?_⟩
  · exact hmarked .standard sampleNative sampleMarked (by decide) rfl rfl unmarked
  · exact (((hlaid .standard sampleNative).1 _).mp (by decide +kernel)).2

end Printing

end Event

end PoolUplink.Log
