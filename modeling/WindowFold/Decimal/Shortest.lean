/-!
The fewest decimal digits that read back to a double, chosen by exact arithmetic on naturals.

A finite nonzero double stands for an interval of reals, those that round to it.  The digits
are the first grid point, on ever finer decimal grids, that falls into that interval.
-/

namespace WindowFold
namespace Decimal

/-- The magnitude of a finite double, `mantissa * 2 ^ exponent`. -/
structure Dyadic where
  mantissa : Nat
  exponent : Int
  /-- The neighbour below is only half as far away as the neighbour above. -/
  narrowBelow : Bool
  deriving DecidableEq, Repr

/-- Which of two equally close decimals is taken. -/
inductive Tie where
  | toEven
  | upward
  deriving DecidableEq, Repr

/-- `d.ddd * 10 ^ exponent`, the first digit standing before the point. -/
structure Scientific where
  digits : List Char
  exponent : Int
  deriving DecidableEq, Repr

def Tie.pick (t : Tie) (below : Nat) : Nat :=
  match t with
  | .toEven => if below % 2 = 0 then below else below + 1
  | .upward => below + 1

namespace Dyadic

/-- The bits of a finite double, sign dropped. -/
def ofBits (b : UInt64) : Dyadic :=
  let e := ((b >>> 52) &&& 0x7FF).toNat
  let f := (b &&& 0xFFFFFFFFFFFFF).toNat
  if e = 0 then
    { mantissa := f, exponent := -1074, narrowBelow := false }
  else
    { mantissa := Nat.pow 2 52 + f, exponent := (e : Int) - 1075, narrowBelow := f == 0 && e != 1 }

/-- Quarters of the last place, so that both ends of the interval are whole. -/
def low (x : Dyadic) : Nat := if x.narrowBelow then 4 * x.mantissa - 1 else 4 * x.mantissa - 2
def mid (x : Dyadic) : Nat := 4 * x.mantissa
def high (x : Dyadic) : Nat := 4 * x.mantissa + 2

/-- `n` quarters over `10 ^ k` is `n * scale` over `grid`. -/
def scale (x : Dyadic) (k : Int) : Nat := Nat.pow 2 (x.exponent - 2).toNat * Nat.pow 10 (-k).toNat
def grid (x : Dyadic) (k : Int) : Nat := Nat.pow 2 (2 - x.exponent).toNat * Nat.pow 10 k.toNat

/-- `c * 10 ^ k` rounds to `x`.  The ends belong to the interval when the mantissa is even. -/
def contains (x : Dyadic) (k : Int) (c : Nat) : Bool :=
  let point := c * x.grid k
  let lo := x.low * x.scale k
  let hi := x.high * x.scale k
  if x.mantissa % 2 = 0 then lo ≤ point && point ≤ hi else lo < point && point < hi

/-- The nearer of the two points of the grid `10 ^ k` around `x`, among those that read back. -/
def nearest (x : Dyadic) (t : Tie) (k : Int) : Option Nat :=
  let value := x.mid * x.scale k
  let below := value / x.grid k
  match x.contains k below, x.contains k (below + 1) with
  | false, false => none
  | true, false => some below
  | false, true => some (below + 1)
  | true, true =>
    match compare (2 * value) ((2 * below + 1) * x.grid k) with
    | .lt => some below
    | .gt => some (below + 1)
    | .eq => some (t.pick below)

/-- The exponent of the leading digit: the greatest `k` with `10 ^ k ≤ x`, for `x` not zero. -/
def leading (x : Dyadic) : Int :=
  let num := x.mantissa * Nat.pow 2 x.exponent.toNat
  let den := Nat.pow 2 (-x.exponent).toNat
  if den ≤ num then
    ((Nat.toDigits 10 (num / den)).length : Int) - 1
  else
    -((Nat.toDigits 10 ((den - 1) / num)).length : Int)

def exact (x : Dyadic) : Nat × Int :=
  (x.mantissa * Nat.pow 2 x.exponent.toNat * Nat.pow 5 (-x.exponent).toNat, min x.exponent 0)

/-- Seventeen digits always read back, so the search finds a point before `exact` is needed. -/
def shortest (x : Dyadic) (t : Tie) : Scientific :=
  let found := (List.range 17).findSome? fun (finer : Nat) =>
    let k := x.leading - (finer : Int)
    (x.nearest t k).map fun c => (c, k)
  let (c, k) := found.getD x.exact
  let ds := Nat.toDigits 10 c
  { digits := (ds.reverse.dropWhile (· == '0')).reverse, exponent := k + ds.length - 1 }

end Dyadic
end Decimal
end WindowFold
