import WindowFold.Decimal.Shortest

/-!
How the digits of a double are laid out as text.  One `Layout` value holds all that differs
between two spellings of the same number.
-/

namespace WindowFold
namespace Decimal

structure Layout where
  tie : Tie
  /-- The least exponent of the leading digit that is written with a plain point. -/
  plainFrom : Int
  /-- The least exponent above those. -/
  plainBelow : Int
  /-- A positive exponent carries a sign. -/
  plus : Bool
  deriving DecidableEq, Repr

/-- The point among the digits, with at least one digit on either side. -/
def Scientific.plain (s : Scientific) : String :=
  if s.exponent < 0 then
    "0." ++ String.ofList (List.replicate (-s.exponent - 1).toNat '0' ++ s.digits)
  else
    let whole := s.exponent.toNat + 1
    if s.digits.length ≤ whole then
      String.ofList (s.digits ++ List.replicate (whole - s.digits.length) '0') ++ ".0"
    else
      String.ofList (s.digits.take whole) ++ "." ++ String.ofList (s.digits.drop whole)

def Scientific.withExponent (s : Scientific) (plus : Bool) : String :=
  let fraction := s.digits.drop 1
  String.ofList (s.digits.take 1)
    ++ (if fraction.isEmpty then "" else "." ++ String.ofList fraction)
    ++ "e" ++ (if plus && 0 ≤ s.exponent then "+" else "") ++ toString s.exponent

namespace Layout

def magnitude (l : Layout) (b : UInt64) : String :=
  let s := (Dyadic.ofBits b).shortest l.tie
  if l.plainFrom ≤ s.exponent ∧ s.exponent < l.plainBelow then s.plain
  else s.withExponent l.plus

def text (l : Layout) (x : Float) : String :=
  if x.isNaN then "NaN"
  else
    (if x.toBits >>> 63 = 0 then "" else "-")
      ++ if x.isInf then "inf" else if x == 0 then "0.0" else l.magnitude x.toBits

end Layout
end Decimal
end WindowFold
