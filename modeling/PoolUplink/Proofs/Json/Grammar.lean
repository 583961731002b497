import Mathlib.Data.List.ReduceOption
import PoolUplink.Proofs.Text.Spelling

/-!
# The grammar of JSON

The texts of JSON as characters: gaps between tokens, literals with the text that they stand for,
numerals, and values nested to any depth. A schema says how the fields of a record are written; a
record is an object of them in any order, with unknown members anywhere, or an array of them in
their own order that may stop early.
-/

set_option autoImplicit false
set_option relaxedAutoImplicit false

namespace PoolUplink.Json

open PoolUplink.Text.Numeral (IsDigit)

def Gap (cs : List Char) : Prop :=
  ∀ c ∈ cs, c ∈ [' ', '\t', '\n', '\r']

theorem Gap.nil : Gap [] := List.forall_mem_nil _

instance (cs : List Char) : Decidable (Gap cs) :=
  List.decidableBAll (fun c => c ∈ [' ', '\t', '\n', '\r']) cs

namespace Literal

/-- A character that stands for itself between quotes. -/
def Kept (c : Char) : Prop :=
  ' ' ≤ c ∧ c ≠ '"' ∧ c ≠ '\\'

instance (c : Char) : Decidable (Kept c) :=
  inferInstanceAs (Decidable (_ ∧ _))

def shorts : List (Char × Char) :=
  [('"', '"'), ('\\', '\\'), ('/', '/'), ('b', '\x08'), ('f', '\x0c'), ('n', '\n'), ('r', '\r'),
    ('t', '\t')]

def Hex (digits : List Char) (n : Nat) : Prop :=
  ∃ ds : List Nat, ds.length = 4 ∧ List.Forall₂ (IsDigit 16) digits ds ∧
    n = Nat.ofDigits 16 ds.reverse

/-- What may stand between quotes. A numbered escape need not name a character. -/
inductive Content : List Char → Prop
  | nil : Content []
  | kept {c : Char} {cs : List Char} : Kept c → Content cs → Content (c :: cs)
  | short {letter c : Char} {cs : List Char} : (letter, c) ∈ shorts → Content cs →
      Content ('\\' :: letter :: cs)
  | numbered {digits cs : List Char} {n : Nat} : Hex digits n → Content cs →
      Content ('\\' :: 'u' :: digits ++ cs)

/-- What stands between quotes, and the text that it stands for. A character beyond the first
plane may be escaped as a pair of surrogates. -/
inductive Denotes : List Char → List Char → Prop
  | nil : Denotes [] []
  | kept {c : Char} {cs text : List Char} : Kept c → Denotes cs text → Denotes (c :: cs) (c :: text)
  | short {letter c : Char} {cs text : List Char} : (letter, c) ∈ shorts → Denotes cs text →
      Denotes ('\\' :: letter :: cs) (c :: text)
  | numbered {digits cs text : List Char} {c : Char} : Hex digits c.toNat → Denotes cs text →
      Denotes ('\\' :: 'u' :: digits ++ cs) (c :: text)
  | pair {leading trailing cs text : List Char} {c : Char} : 0x10000 ≤ c.toNat →
      Hex leading (0xD800 + (c.toNat - 0x10000) / 0x400) →
      Hex trailing (0xDC00 + (c.toNat - 0x10000) % 0x400) → Denotes cs text →
      Denotes ('\\' :: 'u' :: leading ++ ('\\' :: 'u' :: trailing ++ cs)) (c :: text)

def Spells (cs : List Char) (s : String) : Prop :=
  ∃ content, cs = '"' :: content ++ ['"'] ∧ Denotes content s.toList

theorem denotes_of_kept {cs : List Char} (h : cs.all (Kept ·) = true) : Denotes cs cs := by
  induction cs with
  | nil => exact .nil
  | cons c cs ih =>
    rw [List.all_cons, Bool.and_eq_true, decide_eq_true_eq] at h
    exact .kept h.1 (ih h.2)

theorem spells_of_kept {s : String} {cs : List Char} (h : s.toList.all (Kept ·) = true)
    (hcs : cs = '"' :: s.toList ++ ['"']) : Spells cs s :=
  ⟨s.toList, hcs, denotes_of_kept h⟩

private theorem hex_of_lt {n : Nat} (h : n < 0x100) :
    Hex ['0', '0', Nat.digitChar (n / 16), Nat.digitChar (n % 16)] n := by
  have digit {d : Nat} (hd : d < 16) : IsDigit 16 (Nat.digitChar d) d := ⟨hd, .inl rfl⟩
  refine ⟨[0, 0, n / 16, n % 16], rfl, .cons (digit (by decide)) (.cons (digit (by decide))
    (.cons (digit (by omega)) (.cons (digit (by omega)) .nil))), ?_⟩
  simp only [List.reverse_cons, List.reverse_nil, List.nil_append, List.cons_append,
    Nat.ofDigits_cons, Nat.ofDigits_nil]
  omega

private theorem exists_denotes (text : List Char) : ∃ content, Denotes content text := by
  induction text with
  | nil => exact ⟨[], .nil⟩
  | cons c text ih =>
    obtain ⟨content, hcontent⟩ := ih
    by_cases kept : Kept c
    · exact ⟨c :: content, .kept kept hcontent⟩
    · have small : c.toNat < 0x100 := by
        by_contra large
        have all : c ≠ '"' ∧ c ≠ '\\' := by
          constructor
          all_goals
            rintro rfl
            exact large (by decide)
        exact kept ⟨show 0x20 ≤ c.toNat by omega, all⟩
      exact ⟨_, .numbered (hex_of_lt small) hcontent⟩

theorem exists_spells (s : String) : ∃ cs, Spells cs s := by
  obtain ⟨content, hcontent⟩ := exists_denotes s.toList
  exact ⟨_, content, rfl, hcontent⟩

end Literal

namespace Numeral

def DigitRun (cs : List Char) : Prop :=
  cs ≠ [] ∧ ∀ c ∈ cs, ∃ d, IsDigit 10 c d

/-- The digits before the point: a zero alone, or digits that do not start with a zero. -/
def Whole (cs : List Char) : Prop :=
  DigitRun cs ∧ (cs.head? = some '0' → cs = ['0'])

def Fraction (cs : List Char) : Prop :=
  cs = [] ∨ ∃ digits, DigitRun digits ∧ cs = '.' :: digits

def Exponent (cs : List Char) : Prop :=
  cs = [] ∨ ∃ (letter : Char) (sign digits : List Char), letter ∈ ['e', 'E'] ∧
    sign ∈ [[], ['+'], ['-']] ∧ DigitRun digits ∧ cs = letter :: (sign ++ digits)

def Wellformed (cs : List Char) : Prop :=
  ∃ sign whole fraction exponent : List Char, sign ∈ [[], ['-']] ∧ Whole whole ∧
    Fraction fraction ∧ Exponent exponent ∧ cs = sign ++ (whole ++ (fraction ++ exponent))

end Numeral

namespace Grammar

inductive Symbol where
  | value
  | items
  | members

/-- The texts of values, nested to any depth, with any gaps between their tokens. -/
inductive Derives : Symbol → List Char → Prop
  | word {word : String} : word ∈ ["null", "true", "false"] → Derives .value word.toList
  | numeral {cs : List Char} : Numeral.Wellformed cs → Derives .value cs
  | literal {content : List Char} : Literal.Content content →
      Derives .value ('"' :: content ++ ['"'])
  | emptyArray {gap : List Char} : Gap gap → Derives .value ('[' :: gap ++ [']'])
  | array {inside : List Char} : Derives .items inside → Derives .value ('[' :: inside ++ [']'])
  | emptyObject {gap : List Char} : Gap gap → Derives .value ('{' :: gap ++ ['}'])
  | object {inside : List Char} : Derives .members inside → Derives .value ('{' :: inside ++ ['}'])
  | lastItem {before value behind : List Char} : Gap before → Derives .value value → Gap behind →
      Derives .items (before ++ value ++ behind)
  | moreItems {before value behind rest : List Char} : Gap before → Derives .value value →
      Gap behind → Derives .items rest → Derives .items (before ++ value ++ behind ++ ',' :: rest)
  | lastMember {before content gap ahead value behind : List Char} : Gap before →
      Literal.Content content → Gap gap → Gap ahead → Derives .value value → Gap behind →
      Derives .members
        (before ++ ('"' :: content ++ '"' :: gap ++ ':' :: ahead ++ value) ++ behind)
  | moreMembers {before content gap ahead value behind rest : List Char} : Gap before →
      Literal.Content content → Gap gap → Gap ahead → Derives .value value → Gap behind →
      Derives .members rest →
      Derives .members
        (before ++ ('"' :: content ++ '"' :: gap ++ ':' :: ahead ++ value) ++ behind ++ ',' :: rest)

variable {α φ : Type}

inductive Commas (Piece : α → List Char → Prop) : List α → List Char → Prop
  | last {a : α} {before piece behind : List Char} : Gap before → Piece a piece → Gap behind →
      Commas Piece [a] (before ++ piece ++ behind)
  | more {a : α} {as : List α} {before piece behind rest : List Char} : Gap before →
      Piece a piece → Gap behind → Commas Piece as rest →
      Commas Piece (a :: as) (before ++ piece ++ behind ++ ',' :: rest)

/-- Pieces with a comma behind each. -/
inductive Begun (Piece : α → List Char → Prop) : List α → List Char → Prop
  | nil : Begun Piece [] []
  | more {a : α} {as : List α} {before piece behind rest : List Char} : Gap before →
      Piece a piece → Gap behind → Begun Piece as rest →
      Begun Piece (a :: as) (before ++ piece ++ behind ++ ',' :: rest)

inductive Enclosed (first last : Char) (Piece : α → List Char → Prop) : List α → List Char → Prop
  | nil {gap : List Char} : Gap gap → Enclosed first last Piece [] (first :: gap ++ [last])
  | commas {as : List α} {inside : List Char} : Commas Piece as inside →
      Enclosed first last Piece as (first :: inside ++ [last])

theorem exists_enclosed {Piece : α → List Char → Prop} (first last : Char) {as : List α}
    (h : ∀ a ∈ as, ∃ cs, Piece a cs) : ∃ cs, Enclosed first last Piece as cs := by
  have commas (as : List α) (h : ∀ a ∈ as, ∃ cs, Piece a cs) (hne : as ≠ []) :
      ∃ cs, Commas Piece as cs := by
    induction as with
    | nil => exact absurd rfl hne
    | cons a as ih =>
      obtain ⟨⟨cs, hcs⟩, hrest⟩ := List.forall_mem_cons.mp h
      cases as with
      | nil => exact ⟨_, .last Gap.nil hcs Gap.nil⟩
      | cons b as =>
        obtain ⟨rest, hrest⟩ := ih hrest (List.cons_ne_nil _ _)
        exact ⟨_, .more Gap.nil hcs Gap.nil hrest⟩
  cases as with
  | nil => exact ⟨_, .nil Gap.nil⟩
  | cons a as =>
    obtain ⟨cs, hcs⟩ := commas (a :: as) h (List.cons_ne_nil _ _)
    exact ⟨_, .commas hcs⟩

inductive Member (name : String) (Value : List Char → Prop) : List Char → Prop
  | mk {literal gap ahead value : List Char} : Literal.Spells literal name → Gap gap → Gap ahead →
      Value value → Member name Value (literal ++ gap ++ ':' :: ahead ++ value)

/-- How records of one kind are written: the names of their members in their own order, and the
name and the texts of each field. -/
structure Schema (φ : Type) where
  names : List String
  name : φ → String
  Written : φ → List Char → Prop

namespace Schema

variable (schema : Schema φ)

/-- A member of an object: a field, or a member of another name with any value. -/
inductive Part : Option φ → List Char → Prop
  | field {f : φ} {cs : List Char} : Member (schema.name f) (schema.Written f) cs → Part (some f) cs
  | unknown {name : String} {cs : List Char} : name ∉ schema.names →
      Member name (Derives .value) cs → Part none cs

inductive States (fields : List φ) : List Char → Prop
  | object {parts : List (Option φ)} {cs : List Char} : Enclosed '{' '}' schema.Part parts cs →
      parts.reduceOption.Perm fields → States fields cs
  | array {cs : List Char} : Enclosed '[' ']' schema.Written fields cs →
      fields.map schema.name <+: schema.names → States fields cs

/-- The beginning of a record up to a repetition: a field that stands in an object a second time,
up to the end of its name, or a value with a repetition inside. -/
inductive Repeats (Inside : String → List Char → Prop) : List Char → Prop
  | again {parts : List (Option φ)} {f : φ} {front gap literal : List Char} :
      Begun schema.Part parts front → f ∈ parts.reduceOption → Gap gap →
      Literal.Spells literal (schema.name f) → Repeats Inside ('{' :: front ++ gap ++ literal)
  | inMember {parts : List (Option φ)} {name : String} {front gap cs : List Char} :
      Begun schema.Part parts front → name ∈ schema.names → Gap gap →
      Member name (Inside name) cs → Repeats Inside ('{' :: front ++ gap ++ cs)
  | inField {fields : List φ} {name : String} {front gap cs : List Char} :
      Begun schema.Written fields front → fields.map schema.name ++ [name] <+: schema.names →
      Gap gap → Inside name cs → Repeats Inside ('[' :: front ++ gap ++ cs)

end Schema

end Grammar

end PoolUplink.Json
