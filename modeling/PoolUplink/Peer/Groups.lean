import PoolUplink.Peer.Octets

/-!
# Addresses of eight groups

Eight hexadecimal numbers of sixteen bits with colons between them. Where a text leaves groups
out, a double colon stands for the zeros that are missing, and the last two groups may be written
as four octets. An address is printed in one way only: the first of its longest runs of zeros is
left out, if it is longer than one group, and only a mapped address keeps its octets.
-/

set_option autoImplicit false
set_option relaxedAutoImplicit false

namespace PoolUplink.Peer

open PoolUplink.Text

/-- At most `room` groups that a text starts with. -/
structure Row (room : Nat) where
  groups : List UInt16
  /-- Whether the last two are written as octets. -/
  endsInOctets : Bool
  rest : List Char
  length_le : groups.length ≤ room

namespace Row

/-- A group of one to four digits, and what is behind it. -/
def group? (cs : List Char) : Option (UInt16 × List Char) :=
  let (ds, rest) := Numeral.leading 16 cs
  if ds.length ≤ 4 then (Numeral.digits? 16 ds).map fun n => (n.toUInt16, rest) else none

/-- The text of a group: all of it for the first one, and what is behind a colon for the others. -/
def body? (isFirst : Bool) (cs : List Char) : Option (List Char) :=
  match isFirst, cs with
  | true, _ => some cs
  | false, ':' :: rest => some rest
  | false, _ => none

def empty (room : Nat) (cs : List Char) : Row room :=
  ⟨[], false, cs, Nat.zero_le _⟩

/-- The two groups of an address of octets, if there is room for them. -/
def octets? (room : Nat) (cs : List Char) : Option (Row room) :=
  if h : 2 ≤ room then
    (Octets.read? cs).map fun (o, rest) => ⟨o.toGroups, true, rest, h⟩
  else none

def cons {room : Nat} (g : UInt16) (row : Row room) : Row (room + 1) :=
  ⟨g :: row.groups, row.endsInOctets, row.rest, Nat.succ_le_succ row.length_le⟩

/-- As many groups as a text starts with and there is room for. Octets are the last of them. -/
def read : (room : Nat) → (isFirst : Bool) → List Char → Row room
  | 0, _, cs => empty 0 cs
  | room + 1, isFirst, cs =>
    match body? isFirst cs with
    | none => empty (room + 1) cs
    | some body =>
      match octets? (room + 1) body, group? body with
      | some row, _ => row
      | none, some (g, rest) => (read room false rest).cons g
      | none, none => empty (room + 1) cs

end Row

structure Groups where
  toList : List UInt16
  length_toList : toList.length = 8
  deriving DecidableEq, Repr

namespace Groups

/-- The address that two rows with zeros between them make up. -/
def around (front back : List UInt16) (h : front.length + back.length ≤ 8) : Groups where
  toList := front ++ List.replicate (8 - (front.length + back.length)) 0 ++ back
  length_toList := by
    simp only [List.length_append, List.length_replicate]
    omega

/-- An address that a text starts with, and what is behind it. A double colon leaves out at least
one group, and octets only stand at the end. -/
def read? (cs : List Char) : Option (Groups × List Char) :=
  let front := Row.read 8 true cs
  if h : front.groups.length = 8 then some (⟨front.groups, h⟩, front.rest)
  else if front.endsInOctets then none
  else match front.rest with
    | ':' :: ':' :: rest =>
      let back := Row.read (7 - front.groups.length) true rest
      some (around front.groups back.groups (by
        have := front.length_le
        have := back.length_le
        omega), back.rest)
    | _ => none

def zeros (g : Groups) (i : Nat) : Nat :=
  ((g.toList.drop i).takeWhile (· == 0)).length

/-- The place where the first of the longest runs of zero groups starts, if it is longer than one
group. -/
def gap? (g : Groups) : Option Nat :=
  let places := List.range 8
  (places.find? fun i => places.all fun j => g.zeros j ≤ g.zeros i).filter (1 < g.zeros ·)

/-- The address of octets that is mapped to the address. -/
def mapped? (g : Groups) : Option Octets :=
  match g.toList with
  | [0, 0, 0, 0, 0, 0xFFFF, high, low] => some (.ofGroups high low)
  | _ => none

def joined (gs : List UInt16) : List Char :=
  [':'].intercalate (gs.map fun g => Numeral.hex 1 g.toNat)

def chars (g : Groups) : List Char :=
  match g.mapped?, g.gap? with
  | some octets, _ => "::ffff:".toList ++ octets.chars
  | none, some i => joined (g.toList.take i) ++ ':' :: ':' :: joined (g.toList.drop (i + g.zeros i))
  | none, none => joined g.toList

end Groups

end PoolUplink.Peer
