import KnxIoT.Decimal.Binary
/-!
# Decimal: shortest digits

The decimal digits of a finite number: as few as still read back as the same number, and of those
the nearest to it, an exact tie going to the even digit.  The search is exact: a number `m · 2 ^ q`
owns the interval of reals that round to it, and for one, two, … digits the two neighbours of the
number on the grid of that many digits are tried.
-/

namespace KnxIoT.Decimal

/-- How many decimal digits a number has; none for zero. -/
def digitCount (n : Nat) : Nat :=
  if n = 0 then 0 else (Nat.toDigits 10 n).length

/-- The greatest `e` with `10 ^ e ≤ num / den`, for a positive quotient. -/
def floorLog10 (num den : Nat) : Int :=
  if den ≤ num then (digitCount (num / den) : Int) - 1
  else -(digitCount ((den + num - 1) / num - 1) : Int)

/-- The reals that round to a number, over a common denominator. -/
structure Interval where
  low : Nat
  value : Nat
  high : Nat
  /-- The denominator. -/
  den : Nat
  /-- Whether the ends belong to the interval. -/
  closed : Bool

namespace Interval

/-- The interval of the number `m · 2 ^ q`.  Below a power of two the numbers lie half as far apart,
except at the bottom of the range. -/
def ofMagnitude (m : Nat) (q : Int) : Interval :=
  let s := scale 2 1 4 q
  let lowest := Nat.pow 2 Format.double.fraction
  let below := if m = lowest ∧ Format.double.leastExponent < q then 1 else 2
  { low := (4 * m - below) * s.1
    value := 4 * m * s.1
    high := (4 * m + 2) * s.1
    den := s.2
    closed := m % 2 = 0 }

/-- Whether `d · 10 ^ k` lies in the interval. -/
def contains (i : Interval) (d : Nat) (k : Int) : Bool :=
  let s := scale 10 d 1 k
  let x := s.1 * i.den
  if i.closed then i.low * s.2 ≤ x && x ≤ i.high * s.2 else i.low * s.2 < x && x < i.high * s.2

/-- The neighbour of the number on the grid of multiples of `10 ^ k` that lies in the interval; of
two the nearer, of two equally near the even one. -/
def onGrid? (i : Interval) (k : Int) : Option Nat :=
  let s := scale 10 i.value i.den (-k)
  let below := s.1 / s.2
  let nearest := roundDiv s.1 s.2
  if i.contains nearest k then some nearest
  else if i.contains below k then some below
  else if i.contains (below + 1) k then some (below + 1)
  else none

/-- A point of the coarsest grid that has one in the interval, and the grid's exponent.  The first
grid tried is that of one digit; seventeen digits always suffice. -/
def shortest? (i : Interval) : Option (Nat × Int) :=
  let top := floorLog10 i.value i.den
  (List.range 17).findSome? fun (n : Nat) =>
    let k := top - n
    (i.onGrid? k).map fun d => (d, k)

end Interval

/-- Digits without zeros at the end, and the exponent of the first of them. -/
structure Digits where
  /-- The digits, the most significant first. -/
  digits : List Char
  /-- The power of ten of the first digit. -/
  exponent : Int
  deriving DecidableEq, Repr

/-- The digits of `d · 10 ^ k`. -/
def Digits.ofScaled (d : Nat) (k : Int) : Digits :=
  let ds := Nat.toDigits 10 d
  { digits := (ds.reverse.dropWhile (· = '0')).reverse
    exponent := k + ds.length - 1 }

/-- **The shortest digits of `m · 2 ^ q`,** a positive number of 64 bits. -/
def shortestDigits (m : Nat) (q : Int) : Digits :=
  match (Interval.ofMagnitude m q).shortest? with
  | some (d, k) => .ofScaled d k
  | none => ⟨[], 0⟩

end KnxIoT.Decimal
