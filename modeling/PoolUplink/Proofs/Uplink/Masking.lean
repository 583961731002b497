import PoolUplink.Proofs.Text.Spelling
import PoolUplink.Proofs.Uplink.LastWord

/-!
# When a version mask is set

A request about the version mask sets it exactly if its first parameter states one, and changes
nothing else either way. So of any requests about it the last one counts that states a mask, and
every mask can be stated, however its digits are written.
-/

set_option autoImplicit false
set_option relaxedAutoImplicit false

namespace PoolUplink

open PoolUplink.Json (Value)
open PoolUplink.Rpc (Message)
open PoolUplink.Text.Numeral (Spells Hexadecimal)

namespace VersionMask

def marks (k : Nat) : List Char := (List.replicate k ['0', 'x']).flatten

/-- A text is that of a mask: a hexadecimal numeral, once all marks in front are taken away. -/
def Written (cs : List Char) (mask : UInt32) : Prop :=
  ∃ k body, cs = marks k ++ body ∧ ¬ ['0', 'x'] <+: body ∧ Spells 16 body mask.toNat

/-- Parameters state a mask: they are an array, and its first item is the text of the mask. -/
def States (params : Value) (mask : UInt32) : Prop :=
  ∃ (text : String) (rest : List Value), params = .array (.string text :: rest) ∧
    Written text.toList mask

private theorem dropMarks_of_not_marked {body : List Char} (h : ¬ ['0', 'x'] <+: body) :
    dropMarks body = body := by
  unfold dropMarks
  split
  · exact absurd (List.prefix_append ['0', 'x'] _) h
  · rfl

private theorem dropMarks_append (k : Nat) (body : List Char) :
    dropMarks (marks k ++ body) = dropMarks body := by
  induction k with
  | zero => rfl
  | succ k ih =>
    have hmarks : marks (k + 1) ++ body = '0' :: 'x' :: (marks k ++ body) := rfl
    rw [hmarks, dropMarks]
    exact ih

private theorem exists_marks (cs : List Char) :
    ∃ k body, cs = marks k ++ body ∧ ¬ ['0', 'x'] <+: body := by
  fun_induction dropMarks cs with
  | case1 rest ih =>
    obtain ⟨k, body, hrest, hbody⟩ := ih
    exact ⟨k + 1, body, congrArg (fun cs => '0' :: 'x' :: cs) hrest, hbody⟩
  | case2 cs bare =>
    refine ⟨0, cs, rfl, ?_⟩
    rintro ⟨rest, rfl⟩
    exact bare rest rfl

theorem ofText?_eq_some_iff {s : String} {mask : UInt32} :
    ofText? s = some mask ↔ Written s.toList mask := by
  obtain ⟨k, body, hs, hbody⟩ := exists_marks s.toList
  have hread : dropMarks s.toList = body := by
    rw [hs, dropMarks_append, dropMarks_of_not_marked hbody]
  rw [ofText?, hread, Option.map_eq_some_iff]
  constructor
  · rintro ⟨n, hn, rfl⟩
    obtain ⟨hspells, hlt⟩ := (Text.Numeral.unsigned?_eq_some_iff (by decide)).mp hn
    refine ⟨k, body, hs, hbody, ?_⟩
    rw [show n.toUInt32.toNat = n from Nat.mod_eq_of_lt hlt]
    exact hspells
  · rintro ⟨k', body', hs', hbody', hspells⟩
    -- the marks of a text leave one rest
    have hsame : body' = body := by
      rw [← hread, hs', dropMarks_append, dropMarks_of_not_marked hbody']
    subst hsame
    exact ⟨mask.toNat, hspells.unsigned?_word, UInt32.ofNat_toNat⟩

private theorem ofParams?_eq_some_iff {params : Value} {mask : UInt32} :
    ofParams? params = some mask ↔ States params mask := by
  unfold ofParams? States
  simp only [Option.bind_eq_some_iff, ofText?_eq_some_iff]
  constructor
  · rintro ⟨text, ⟨first, ⟨items, hitems, hfirst⟩, htext⟩, written⟩
    cases params <;> cases hitems
    cases items <;> cases hfirst
    cases first <;> cases htext
    exact ⟨_, _, rfl, written⟩
  · rintro ⟨text, rest, rfl, written⟩
    exact ⟨text, ⟨.string text, ⟨_, rfl, rfl⟩, rfl⟩, written⟩

private theorem not_marked_of_spells {body : List Char} {n : Nat} (h : Spells 16 body n) :
    ¬ ['0', 'x'] <+: body := by
  rintro ⟨rest, rfl⟩
  have hread : Text.Numeral.unsigned? 16 (n + 1) ('0' :: 'x' :: rest) = some n :=
    (Text.Numeral.unsigned?_eq_some_iff (by decide)).mpr ⟨h, n.lt_succ_self⟩
  simp [Text.Numeral.unsigned?, Text.Numeral.digits?, Text.Numeral.extend?, Text.Numeral.digit?,
    Text.Numeral.nibble?] at hread

private theorem written_of_hexadecimal {mask : UInt32} {digits : List Char}
    (hex : Hexadecimal mask.toNat digits) (k : Nat) : Written (marks k ++ digits) mask :=
  ⟨k, digits, rfl, not_marked_of_spells hex.spells, hex.spells⟩

end VersionMask

def AsksMask (line : List UInt8) (params : Value) : Prop :=
  ∃ id, Message.ofLine line = .ok (.request id "mining.set_version_mask" params)

def SetsMask (line : List UInt8) (mask : UInt32) : Prop :=
  ∃ params, AsksMask line params ∧ VersionMask.States params mask

private theorem maskIn?_of_asks {line : List UInt8} {params : Value} (h : AsksMask line params) :
    maskIn? (.got (.line line)) = VersionMask.ofParams? params := by
  obtain ⟨id, hm⟩ := h
  simp [maskIn?, hm]

private theorem maskIn?_eq_some_iff {line : List UInt8} {params : Value} (h : AsksMask line params)
    {mask : UInt32} : maskIn? (.got (.line line)) = some mask ↔ SetsMask line mask := by
  rw [maskIn?_of_asks h, VersionMask.ofParams?_eq_some_iff]
  constructor
  · exact fun states => ⟨params, h, states⟩
  · rintro ⟨params', ⟨id', hm'⟩, states⟩
    obtain ⟨id, hm⟩ := h
    rw [hm] at hm'
    cases hm'
    exact states

private theorem filterMap_maskIn?_eq_nil {lines : List (List UInt8)}
    (asking : ∀ line ∈ lines, ∃ params, AsksMask line params)
    (silent : ∀ line ∈ lines, ∀ mask, ¬ SetsMask line mask) :
    (lines.filterMap fun line => maskIn? (.got (.line line))) = [] := by
  refine List.filterMap_eq_nil_iff.mpr fun line hline => ?_
  obtain ⟨params, asks⟩ := asking line hline
  rw [Option.eq_none_iff_forall_ne_some]
  exact fun mask hmask => silent line hline mask ((maskIn?_eq_some_iff asks).mp hmask)

namespace Uplink

/-- The uplink after lines, one after the other, up to the first that is fatal. -/
def onLines (u : Uplink) (lines : List (List UInt8)) : Except Fault Uplink :=
  lines.foldlM (fun v line => (v.onLine line).1) u

private theorem onLines_append (u : Uplink) (lines : List (List UInt8)) (line : List UInt8) :
    u.onLines (lines ++ [line]) = (u.onLines lines).bind fun v => (v.onLine line).1 := by
  unfold onLines
  rw [List.foldlM_append]
  refine congrArg (Except.bind _) (funext fun v => ?_)
  rw [List.foldlM_cons]
  exact bind_pure (v.onLine line).1

private theorem onLine_of_asks {line : List UInt8} {params : Value} (h : AsksMask line params)
    (u : Uplink) : (u.onLine line).1 =
      .ok { u with versionMask := (maskIn? (.got (.line line))).getD u.versionMask } := by
  rw [onLine_fst, maskIn?_of_asks h]
  obtain ⟨id, hm⟩ := h
  simp only [Notice.ofItem, hm, Notice.ofMessage, Notice.ofRequest]
  cases VersionMask.ofParams? params <;> rfl

private theorem onLines_of_asks {lines : List (List UInt8)}
    (h : ∀ line ∈ lines, ∃ params, AsksMask line params) (u : Uplink) :
    u.onLines lines = .ok { u with versionMask :=
      (lines.filterMap fun line => maskIn? (.got (.line line))).getLast?.getD u.versionMask } := by
  induction lines using List.reverseRecOn with
  | nil => rfl
  | append_singleton lines line ih =>
    have hfront := ih fun l hl => h l (List.mem_append_left _ hl)
    obtain ⟨params, asks⟩ := h line (by simp)
    rw [onLines_append, hfront, Except.bind, onLine_of_asks asks, List.filterMap_append,
      List.filterMap_cons]
    cases maskIn? (.got (.line line)) <;> simp

/-- A request about the version mask sets it if it states one, and changes nothing if it does not;
it is never fatal, and nothing but the mask is changed. So every mask is set that is sent in
hexadecimal digits, in lower or in upper case, filled up with zeros or not, behind a mark or not.
After any requests about it the mask is the last one stated, or the one from before them if none
states one. -/
theorem mask_set_iff_stated (u : Uplink) :
    (∀ line params, AsksMask line params →
      (∀ mask, VersionMask.States params mask →
        (u.onLine line).1 = .ok { u with versionMask := mask }) ∧
      ((∀ mask, ¬ VersionMask.States params mask) → (u.onLine line).1 = .ok u)) ∧
    (∀ (mask : UInt32) (digits : List Char) (k : Nat) (rest : List Value) (line : List UInt8),
      Hexadecimal mask.toNat digits →
      AsksMask line
        (.array (.string (String.ofList (VersionMask.marks k ++ digits)) :: rest)) →
      (u.onLine line).1 = .ok { u with versionMask := mask }) ∧
    ∀ lines : List (List UInt8), (∀ line ∈ lines, ∃ params, AsksMask line params) →
      (∀ before line later mask, lines = before ++ line :: later → SetsMask line mask →
        (∀ other ∈ later, ∀ m, ¬ SetsMask other m) →
        u.onLines lines = .ok { u with versionMask := mask }) ∧
      ((∀ line ∈ lines, ∀ m, ¬ SetsMask line m) → u.onLines lines = .ok u) := by
  have set {line : List UInt8} {params : Value} (asks : AsksMask line params) {mask : UInt32}
      (states : VersionMask.States params mask) :
      (u.onLine line).1 = .ok { u with versionMask := mask } := by
    rw [onLine_of_asks asks, (maskIn?_eq_some_iff asks).mpr ⟨params, asks, states⟩,
      Option.getD_some]
  refine ⟨fun line params asks => ⟨fun mask => set asks, fun silent => ?_⟩, ?_, ?_⟩
  · have hnone : VersionMask.ofParams? params = none := by
      rw [Option.eq_none_iff_forall_ne_some]
      exact fun mask hmask => silent mask (VersionMask.ofParams?_eq_some_iff.mp hmask)
    rw [onLine_of_asks asks, maskIn?_of_asks asks, hnone, Option.getD_none]
  · intro mask digits k rest line hex asks
    refine set asks ⟨_, rest, rfl, ?_⟩
    rw [String.toList_ofList]
    exact VersionMask.written_of_hexadecimal hex k
  · intro lines asking
    rw [onLines_of_asks asking]
    refine ⟨?_, fun hsilent => ?_⟩
    · rintro before line later mask rfl sets hsilent
      obtain ⟨params, asks⟩ := asking line (by simp)
      have hlater := filterMap_maskIn?_eq_nil (fun l hl => asking l (by simp [hl])) hsilent
      rw [List.filterMap_append, List.filterMap_cons, (maskIn?_eq_some_iff asks).mpr sets, hlater]
      simp
    · rw [filterMap_maskIn?_eq_nil asking hsilent]
      rfl

def sampleAsking : List (List UInt8) :=
  [Json.Ascii.bytes
    "\x7b\"method\":\"mining.set_version_mask\",\"params\":[\"0x0x+1fFFe000\",7]\x7d\n",
    Json.Ascii.bytes
    "\x7b\"id\":5,\"method\":\"mining.set_version_mask\",\"params\":[\"+0x1\"]\x7d\n"]

theorem mask_set_iff_stated_of_sampleAsking :
    ∃ u line stray, create sampleSettings "account" 0 = .ok u ∧ sampleAsking = [line, stray] ∧
      SetsMask line 0x1fffe000 ∧ (∀ m, ¬ SetsMask stray m) ∧
      u.onLines sampleAsking = .ok { u with versionMask := 0x1fffe000 } := by
  obtain ⟨u, created⟩ : ∃ u, create sampleSettings "account" 0 = .ok u := ⟨_, rfl⟩
  let params : Value := .array [.string "0x0x+1fFFe000", .ofNat 7]
  have asks : AsksMask sampleAsking[0] params := ⟨none, by decide +kernel⟩
  have strays : AsksMask sampleAsking[1] (.array [.string "+0x1"]) :=
    ⟨some (.ofNat 5), by decide +kernel⟩
  have sets : SetsMask sampleAsking[0] 0x1fffe000 :=
    ⟨params, asks, VersionMask.ofParams?_eq_some_iff.mp (by decide +kernel)⟩
  have silent : ∀ m, ¬ SetsMask sampleAsking[1] m := by
    intro m hm
    rw [← maskIn?_eq_some_iff strays, maskIn?_of_asks strays] at hm
    have hnone : VersionMask.ofParams? (.array [.string "+0x1"]) = none := by decide +kernel
    rw [hnone] at hm
    cases hm
  have asking : ∀ line ∈ sampleAsking, ∃ params, AsksMask line params := by
    intro line hline
    rcases List.mem_pair.mp hline with rfl | rfl
    · exact ⟨params, asks⟩
    · exact ⟨_, strays⟩
  refine ⟨u, sampleAsking[0], sampleAsking[1], created, rfl, sets, silent, ?_⟩
  refine ((mask_set_iff_stated u).2.2 sampleAsking asking).1 [] _ [sampleAsking[1]] _ rfl sets ?_
  intro other hother
  obtain rfl := List.mem_singleton.mp hother
  exact silent

end Uplink

end PoolUplink
