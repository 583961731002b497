import PoolUplink.Text.Blank
import PoolUplink.Text.Numeral

/-!
# Log records

What the agent has to say, with the facts as named fields. Which records are shown is decided by
their level, from a filter in the environment.
-/

set_option autoImplicit false
set_option relaxedAutoImplicit false

namespace PoolUplink.Log

inductive Level where
  | error
  | warn
  | info
  | debug
  | trace
  deriving DecidableEq, Repr

/-- The rank of a level: the most severe has the least. -/
def Level.rank : Level → Nat
  | error => 1
  | warn => 2
  | info => 3
  | debug => 4
  | trace => 5

structure Record where
  level : Level
  /-- The part of the program that speaks. -/
  target : String
  message : String
  fields : List (String × String)
  deriving DecidableEq, Repr

/-- The least severe level that is shown, if any is. -/
abbrev Threshold := Option Level

def Threshold.admits (t : Threshold) (level : Level) : Bool :=
  match t with
  | some least => level.rank ≤ least.rank
  | none => false

def lower (s : String) : String := s.map Char.toLower

/-- Reads a threshold: the name of a level in any case, its rank, or a word for none. -/
def Threshold.ofText? (s : String) : Option Threshold :=
  match lower s with
  | "error" | "1" => some (some .error)
  | "warn" | "2" => some (some .warn)
  | "info" | "3" => some (some .info)
  | "debug" | "4" => some (some .debug)
  | "trace" | "5" => some (some .trace)
  | "off" | "0" => some none
  | _ => none

/-- Which records are shown: a threshold for the targets that start with a scope. -/
structure Filter where
  scope : String
  threshold : Threshold
  deriving DecidableEq, Repr

namespace Filter

def standard : Filter := ⟨"", some .info⟩

/-- Reads a filter: a threshold, possibly behind a scope and an equals sign. A text that is none
leaves the standard. There is one threshold at most: a list of several with commas between them is
taken for none, so that it leaves the standard too. -/
def ofText (s : String) : Filter :=
  let cs := s.toList
  let front := cs.takeWhile (· != '=')
  match cs.dropWhile (· != '=') with
  | [] =>
    match Threshold.ofText? s with
    | some t => ⟨"", t⟩
    | none => standard
  | _ :: back =>
    match Threshold.ofText? (String.ofList back) with
    | some t => ⟨String.ofList front, t⟩
    | none => standard

def shows (f : Filter) (level : Level) (target : String) : Bool :=
  f.scope.toList.isPrefixOf target.toList && f.threshold.admits level

end Filter

end PoolUplink.Log
