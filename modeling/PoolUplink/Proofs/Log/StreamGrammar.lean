import PoolUplink.Log.Journal
import PoolUplink.Proofs.Text.Spelling

/-!
# The grammar of the journal's stream

A text states a stream as two decimal numerals with a colon between them and nothing else, so that
its first colon is its only one. Exactly the texts of this form are read, as the stream they state,
and the text of every stream is one of them.
-/

set_option autoImplicit false
set_option relaxedAutoImplicit false

namespace PoolUplink.Log.Journal

open PoolUplink.Text

/-- A text states a stream: a numeral of the device and one of the inode, a colon between them. -/
def Stream.StatedBy (s : Stream) (stated : String) : Prop :=
  ∃ device inode : List Char, stated.toList = device ++ ':' :: inode ∧
    Numeral.Spells 10 device s.device.toNat ∧ Numeral.Spells 10 inode s.inode.toNat

private theorem number?_eq_some_iff {cs : List Char} {n : UInt64} :
    number? cs = some n ↔ Numeral.Spells 10 cs n.toNat := by
  have hsmall : (10 : Nat) ≤ 16 := by decide
  rw [number?, Option.map_eq_some_iff]
  constructor
  · rintro ⟨m, hm, rfl⟩
    obtain ⟨hspells, hbound⟩ := (Numeral.unsigned?_eq_some_iff hsmall).mp hm
    rwa [UInt64.toNat_ofNat_of_lt' hbound]
  · intro hspells
    refine ⟨n.toNat, ?_, UInt64.ofNat_toNat⟩
    exact (Numeral.unsigned?_eq_some_iff hsmall).mpr ⟨hspells, n.toNat_lt⟩

private theorem split_append {front : List Char} (h : ':' ∉ front) (behind : List Char) :
    (front ++ ':' :: behind).takeWhile (· != ':') = front ∧
      (front ++ ':' :: behind).dropWhile (· != ':') = ':' :: behind := by
  have hall : ∀ c ∈ front, (c != ':') = true := by
    intro c hc
    rw [bne_iff_ne]
    rintro rfl
    exact h hc
  rw [List.takeWhile_append_of_pos hall, List.dropWhile_append_of_pos hall]
  simp

theorem stream?_eq_some_iff {stated : String} {s : Stream} :
    stream? stated = some s ↔ s.StatedBy stated := by
  constructor
  · intro h
    have hsplit := List.takeWhile_append_dropWhile (p := (· != ':')) (l := stated.toList)
    unfold stream? at h
    split at h
    · cases h
    · rename_i c inode htail
      have hcolon := List.head?_dropWhile_not (· != ':') stated.toList
      rw [htail] at hcolon hsplit
      obtain rfl : c = ':' := by simpa using hcolon
      split at h
      · rename_i hdevice hinode
        cases h
        exact ⟨_, inode, hsplit.symm, number?_eq_some_iff.mp hdevice,
          number?_eq_some_iff.mp hinode⟩
      · cases h
  · rintro ⟨device, inode, hstated, hdevice, hinode⟩
    -- no numeral holds a colon, so that the text is split where it was put together
    have hcolon : ':' ∉ device := hdevice.not_mem (by decide) (by decide) (by decide)
    obtain ⟨hfront, hbehind⟩ := split_append hcolon inode
    rw [stream?, hstated, hbehind, hfront]
    simp only [number?_eq_some_iff.mpr hdevice, number?_eq_some_iff.mpr hinode]

private theorem statedBy_text (s : Stream) : s.StatedBy (text s) := by
  have hspells (n : Nat) : Numeral.Spells 10 (Numeral.decimal n) n :=
    Numeral.spells_of_extend? (by decide) (Numeral.decimal_ne_nil n) (Numeral.extend?_decimal n)
  exact ⟨_, _, String.toList_ofList, hspells _, hspells _⟩

/-- A text is read as a stream exactly if it states the stream, and as none exactly if it states
none. The text of a stream is read as the stream. -/
theorem stream_grammar :
    (∀ (stated : String) (s : Stream), stream? stated = some s ↔ s.StatedBy stated) ∧
      (∀ stated : String, stream? stated = none ↔ ∀ s : Stream, ¬ s.StatedBy stated) ∧
      ∀ s : Stream, stream? (text s) = some s := by
  refine ⟨fun stated s => stream?_eq_some_iff, ?_, ?_⟩
  · intro stated
    simp only [Option.eq_none_iff_forall_ne_some, ne_eq, stream?_eq_some_iff]
  · intro s
    exact stream?_eq_some_iff.mpr (statedBy_text s)

/-- The greatest numbers are read behind signs and zeros, one more than the greatest is not, and
neither are blanks or a second colon. -/
example : stream? "+018446744073709551615:00" = some ⟨18446744073709551615, 0⟩ ∧
    stream? "18446744073709551616:1" = none ∧ stream? "8: 9" = none ∧ stream? "8:9:" = none := by
  decide +kernel

end PoolUplink.Log.Journal
