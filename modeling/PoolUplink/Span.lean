import PoolUplink.Text.Numeral

/-!
# Spans of time

Time limits, as whole seconds and nanoseconds, and the way a diagnostic states them: in the
largest unit of which there is at least one, with the fraction that remains.
-/

set_option autoImplicit false
set_option relaxedAutoImplicit false

namespace PoolUplink

structure Span where
  seconds : Nat
  nanoseconds : Nat
  deriving DecidableEq, Repr

namespace Span

open PoolUplink.Text

def ofSeconds (n : Nat) : Span := ⟨n, 0⟩

/-- The point and the decimals of `fraction / 10 ^ places`, or nothing for a fraction of zero. -/
def decimals (places fraction : Nat) : List Char :=
  let digits := Numeral.decimal fraction
  let padded := List.replicate (places - digits.length) '0' ++ digits
  let kept := (padded.reverse.dropWhile (· = '0')).reverse
  if kept.isEmpty then [] else '.' :: kept

/-- The span in the largest unit it reaches. -/
def text (s : Span) : String :=
  let written (whole places fraction : Nat) (unit : String) :=
    String.ofList (Numeral.decimal whole ++ decimals places fraction) ++ unit
  if s.seconds > 0 then written s.seconds 9 s.nanoseconds "s"
  else if s.nanoseconds ≥ 1000000 then
    written (s.nanoseconds / 1000000) 6 (s.nanoseconds % 1000000) "ms"
  else if s.nanoseconds ≥ 1000 then
    written (s.nanoseconds / 1000) 3 (s.nanoseconds % 1000) "µs"
  else written s.nanoseconds 0 0 "ns"

end Span

end PoolUplink
