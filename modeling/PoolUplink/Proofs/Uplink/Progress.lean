import PoolUplink.Proofs.Uplink.Outcome
import PoolUplink.Proofs.Wire.Remainder

/-!
# Reading makes progress

Every item takes bytes off its stream: a line as many as it has, a frame as many as it declares,
which are at least those of its header. So a handshake that reads until it stops handles no more
items than there are bytes, and where the stream ends it does stop, whatever the bytes are.
-/

set_option autoImplicit false
set_option relaxedAutoImplicit false

namespace PoolUplink

open PoolUplink.Wire (Item Reading Inbound)

namespace Wire

def Item.size : Item → Nat
  | line text => text.length
  | frame header => header.length.toNat

private theorem Item.CarriedBy.length_eq {item : Item} {bytes : List UInt8}
    (h : item.CarriedBy bytes) : bytes.length = item.size := by
  cases item with
  | line text => exact congrArg List.length h
  | frame header =>
    obtain ⟨low, high, body, -, -, hlength, -⟩ := h
    exact hlength

/-- A header covers itself: its body is what its length leaves, with nothing cut off at zero. -/
theorem Frame.Header.bodyLength_add (h : Header) : h.bodyLength + 4 = h.length.toNat :=
  Nat.sub_add_cancel h.covers

private theorem Item.read_cases (s : Inbound) :
    (∃ (p : Packet) (t : Inbound), read s = (.got p.item, t) ∧
      s.remaining = p.bytes ++ t.remaining ∧ t.ending = s.ending) ∨
    ∃ (r : Remainder) (t : Inbound), read s = (r.reading s.ending, t) ∧ s.remaining = r.bytes := by
  have hread := read_flat s
  rcases exists_packet_or_remainder s.remaining with ⟨p, rest, hbytes⟩ | ⟨r, hbytes⟩
  · have hcursor : s.cursor = ⟨p.bytes ++ rest, s.ending⟩ := Inbound.cursor_eq hbytes rfl
    rw [hcursor, Cursor.item_of_packet] at hread
    obtain ⟨hitem, hrest⟩ := Prod.mk.inj hread
    obtain ⟨hremaining, hending⟩ := Cursor.mk.inj hrest
    exact Or.inl ⟨p, (read s).2, Prod.ext hitem rfl, by rw [hremaining]; exact hbytes, hending⟩
  · have hcursor : s.cursor = ⟨r.bytes, s.ending⟩ := Inbound.cursor_eq hbytes rfl
    have hreading := congrArg Prod.fst hread
    rw [hcursor, Cursor.item_of_remainder] at hreading
    exact Or.inr ⟨r, (read s).2, Prod.ext hreading rfl, hbytes⟩

theorem Item.read_takes {s t : Inbound} {item : Item} (h : read s = (.got item, t)) :
    ∃ taken, s.remaining = taken ++ t.remaining ∧ item.CarriedBy taken ∧ 0 < taken.length ∧
      t.ending = s.ending := by
  rcases read_cases s with ⟨p, t', hread, hbytes, hending⟩ | ⟨r, t', hread, -⟩
  · obtain ⟨hitem, rfl⟩ := Prod.mk.inj (h.symm.trans hread)
    obtain rfl := Reading.got.inj hitem
    exact ⟨p.bytes, hbytes, p.carries, p.length_pos, hending⟩
  · exact absurd (Prod.mk.inj (h.symm.trans hread)).1.symm (r.reading_ne_got _ _)

theorem Item.size_add_of_read {s t : Inbound} {item : Item} (h : read s = (.got item, t)) :
    item.size + t.remaining.length = s.remaining.length ∧ 0 < item.size := by
  obtain ⟨taken, hbytes, hcarried, hpos, -⟩ := read_takes h
  rw [hbytes, List.length_append, hcarried.length_eq]
  exact ⟨rfl, hcarried.length_eq ▸ hpos⟩

theorem Item.silent_of_read_waiting {s t : Inbound} (h : read s = (.waiting, t)) :
    s.ending = .silent := by
  rcases read_cases s with ⟨p, t', hread, -⟩ | ⟨r, t', hread, -⟩
  · cases (Prod.mk.inj (h.symm.trans hread)).1
  · have hreading := (Prod.mk.inj (h.symm.trans hread)).1
    cases hending : s.ending with
    | silent => rfl
    | closed => cases r <;> simp [hending, Remainder.reading, Ending.reading] at hreading
    | torn => cases r <;> simp [hending, Remainder.reading, Ending.reading] at hreading

end Wire

namespace Uplink

def reading (u : Uplink) (link : Link) (inbound : Inbound) : Uplink :=
  { u with carrier := .live { link with inbound } }

/-- The items that an uplink handles from a link while its handshake waits for responses, and the
result and the uplink that are left when it stops. -/
inductive Consumed : Uplink → Link → List Item → Reading Unit → Uplink → Prop
  | finished {u : Uplink} {link : Link} : u.phase.inHandshake = false →
      Consumed u link [] (.got ()) (u.reading link link.inbound)
  | starved {u : Uplink} {link : Link} {t : Inbound} : u.phase.inHandshake = true →
      Item.read link.inbound = (.waiting, t) →
      Consumed u link [] (if u.stopping then .failed .shutdown else .waiting) (u.reading link t)
  | broken {u : Uplink} {link : Link} {fault : Fault} {t : Inbound} :
      u.phase.inHandshake = true → Item.read link.inbound = (.failed fault, t) →
      Consumed u link [] (.failed fault) (u.reading link t)
  | refused {u : Uplink} {link : Link} {item : Item} {t : Inbound} {fault : Fault} :
      u.phase.inHandshake = true → Item.read link.inbound = (.got item, t) →
      ((u.reading link t).onItem item).1 = .error fault →
      Consumed u link [item] (.failed fault) (u.reading link t)
  | accepted {u v w : Uplink} {link : Link} {item : Item} {t : Inbound} {items : List Item}
      {result : Reading Unit} : u.phase.inHandshake = true →
      Item.read link.inbound = (.got item, t) → ((u.reading link t).onItem item).1 = .ok v →
      Consumed v { link with inbound := t } items result w →
      Consumed u link (item :: items) result w

theorem exists_consumed (past : List Activity) (u : Uplink) (link : Link) :
    ∃ items, Consumed u link items (consumeFrom past u link).result
      (consumeFrom past u link).uplink := by
  fun_induction consumeFrom past u link with
  | case1 past u link hp inbound hread => exact ⟨[], .starved hp hread⟩
  | case2 past u link hp fault inbound hread => exact ⟨[], .broken hp hread⟩
  | case3 past u link hp item inbound hread v done doing fault hitem =>
    exact ⟨[item], .refused hp hread (congrArg Prod.fst hitem)⟩
  | case4 past u link hp item inbound hread reading done doing v hitem ih =>
    obtain ⟨items, consumed⟩ := ih
    exact ⟨item :: items, .accepted hp hread (congrArg Prod.fst hitem) consumed⟩
  | case5 past u link hp => exact ⟨[], .finished (Bool.not_eq_true _ ▸ hp)⟩

section Consumed

variable {u v : Uplink} {link : Link} {items : List Item} {result : Reading Unit}

theorem Consumed.unique {items' : List Item} {result' : Reading Unit} {v' : Uplink}
    (h : Consumed u link items result v) (h' : Consumed u link items' result' v') :
    items = items' ∧ result = result' ∧ v = v' := by
  -- the phase, what is read and the reaction to it tell the cases apart
  induction h generalizing items' result' v' with
  | finished hp => cases h' <;> simp_all
  | starved hp hread => cases h' <;> simp_all
  | broken hp hread => cases h' <;> simp_all
  | refused hp hread hitem => cases h' <;> simp_all
  | accepted hp hread hitem consumed ih =>
    cases h' with
    | accepted hp' hread' hitem' consumed' =>
      cases hread.symm.trans hread'
      cases hitem.symm.trans hitem'
      obtain ⟨rfl, rfl, rfl⟩ := ih consumed'
      exact ⟨rfl, rfl, rfl⟩
    | _ => simp_all

private theorem Consumed.prefix_units (h : Consumed u link items result v) :
    items.map .got <+: Item.units link.inbound := by
  induction h with
  | finished | starved | broken => exact List.nil_prefix
  | refused _ hread _ =>
    rw [Item.units_eq, hread]
    exact List.prefix_append [_] _
  | accepted _ hread _ _ ih =>
    rw [Item.units_eq, hread, List.map_cons]
    exact List.cons_prefix_cons.mpr ⟨rfl, ih⟩

private theorem Consumed.bounded (h : Consumed u link items result v) :
    items.length ≤ (items.map Item.size).sum ∧
      (items.map Item.size).sum ≤ link.inbound.remaining.length := by
  induction h with
  | finished | starved | broken => exact ⟨Nat.le_refl 0, Nat.zero_le _⟩
  | refused _ hread _ =>
    have hsize := Item.size_add_of_read hread
    simp only [List.map_cons, List.map_nil, List.sum_cons, List.sum_nil, List.length_cons,
      List.length_nil]
    omega
  | accepted _ hread _ _ ih =>
    -- what the first item leaves bounds the others
    have hsize := Item.size_add_of_read hread
    simp only [List.map_cons, List.sum_cons, List.length_cons] at ih ⊢
    omega

private theorem Consumed.result_ne_waiting (h : Consumed u link items result v)
    (ends : link.inbound.ending ≠ .silent) : result ≠ .waiting := by
  induction h with
  | finished => exact nofun
  | starved _ hread => exact absurd (Item.silent_of_read_waiting hread) ends
  | broken => exact nofun
  | refused => exact nofun
  | accepted _ hread _ _ ih =>
    obtain ⟨taken, -, -, -, hending⟩ := Item.read_takes hread
    exact ih (hending ▸ ends)

end Consumed

/-- An item that is read takes its own bytes off the stream and no others, at least one, and a
frame at least its header, which the length of its body leaves out. So a handshake over a stream of
any bytes handles, in the one way there is, the first items of the stream in their order, no more
of them than there are bytes, and it stops for good wherever the stream ends. -/
theorem consume_progresses :
    (∀ (s t : Inbound) (item : Item), Item.read s = (.got item, t) →
      ∃ taken, s.remaining = taken ++ t.remaining ∧ item.CarriedBy taken ∧
        taken.length = item.size ∧ 0 < item.size ∧
        ∀ header, item = .frame header →
          4 ≤ item.size ∧ header.bodyLength + 4 = item.size) ∧
    ∀ (u : Uplink) (link : Link), u.carrier = .live link →
      ∃ items,
        (∀ others result v, Consumed u link others result v ↔
          others = items ∧ result = u.consume.result ∧ v = u.consume.uplink) ∧
        items.map .got <+: Item.units link.inbound ∧
        (items.map Item.size).sum ≤ link.inbound.remaining.length ∧
        items.length ≤ link.inbound.remaining.length ∧
        (link.inbound.ending ≠ .silent → u.consume.result ≠ .waiting) := by
  constructor
  · intro s t item hread
    obtain ⟨taken, hbytes, hcarried, hpos, -⟩ := Item.read_takes hread
    refine ⟨taken, hbytes, hcarried, hcarried.length_eq, hcarried.length_eq ▸ hpos, ?_⟩
    rintro header rfl
    exact ⟨header.covers, header.bodyLength_add⟩
  · intro u link live
    obtain ⟨items, consumed⟩ := exists_consumed [] u link
    have hconsume : u.consume = consumeFrom [] u link := by rw [consume, live]
    rw [← hconsume] at consumed
    obtain ⟨hcount, hsum⟩ := consumed.bounded
    refine ⟨items, ?_, consumed.prefix_units, hsum, hcount.trans hsum,
      consumed.result_ne_waiting⟩
    intro others result v
    constructor
    · exact fun h => h.unique consumed
    · rintro ⟨rfl, rfl, rfl⟩
      exact consumed

def sampleUnread : Link :=
  ⟨⟨[0x7F], [[5], [], [4, 0, 0x7B], [0x7D, 0x0A]], .torn, 1⟩, .fresh none, none⟩

theorem consume_progresses_of_sampleUnread :
    ∃ u t, create sampleSettings "account" 0 = .ok u ∧
      Item.read sampleUnread.inbound = (.got (.frame ⟨5, 4, by decide⟩), t) ∧
      (∃ taken, sampleUnread.inbound.remaining = taken ++ t.remaining ∧ taken.length = 4) ∧
      (u.attachLink sampleUnread).carrier = .live sampleUnread ∧
      sampleUnread.inbound.ending ≠ .silent ∧
      (u.attachLink sampleUnread).consume.result ≠ .waiting ∧
      ∃ items, Consumed (u.attachLink sampleUnread) sampleUnread items
        (u.attachLink sampleUnread).consume.result (u.attachLink sampleUnread).consume.uplink ∧
          items.length ≤ 7 := by
  obtain ⟨u, created⟩ : ∃ u, create sampleSettings "account" 0 = .ok u := ⟨_, rfl⟩
  obtain ⟨t, hread⟩ : ∃ t, Item.read sampleUnread.inbound =
      (.got (.frame ⟨5, 4, by decide⟩), t) := ⟨_, Prod.ext (by decide) rfl⟩
  obtain ⟨hitem, hconsume⟩ := consume_progresses
  obtain ⟨taken, hbytes, -, hlength, -⟩ := hitem _ _ _ hread
  have ends : sampleUnread.inbound.ending ≠ .silent := by decide
  obtain ⟨items, hconsumed, -, -, hcount, hresult⟩ :=
    hconsume (u.attachLink sampleUnread) sampleUnread rfl
  exact ⟨u, t, created, hread, ⟨taken, hbytes, hlength⟩, rfl, ends, hresult ends, items,
    (hconsumed _ _ _).mpr ⟨rfl, rfl, rfl⟩, hcount⟩

end Uplink

end PoolUplink
