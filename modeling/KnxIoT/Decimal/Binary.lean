/-!
# Decimal: binary floating-point formats

The interchange formats of 16, 32 and 64 bits as plain numbers: a format is its number of fraction
bits and of exponent bits, a value is the pattern of its bits.  `Format.round` gives the pattern
nearest to a quotient of naturals, a tie going to the even pattern; `Format.magnitude?` gives the
exact value of a pattern back.  Changing the width of a value is one after the other.
-/

namespace KnxIoT.Decimal

/-- A binary interchange format. -/
structure Format where
  /-- Bits of the fraction. -/
  fraction : Nat
  /-- Bits of the exponent. -/
  exponent : Nat
  deriving DecidableEq, Repr

namespace Format

/-- The format of 16 bits. -/
def half : Format := ⟨10, 5⟩

/-- The format of 32 bits. -/
def single : Format := ⟨23, 8⟩

/-- The format of 64 bits. -/
def double : Format := ⟨52, 11⟩

/-- How many bits a pattern has. -/
def width (f : Format) : Nat :=
  f.fraction + f.exponent + 1

/-- The exponent of the unit in the last place of the smallest values. -/
def leastExponent (f : Format) : Int :=
  2 - Nat.pow 2 (f.exponent - 1) - f.fraction

/-- The pattern of infinity, without a sign. -/
def infinity (f : Format) : Nat :=
  (Nat.pow 2 f.exponent - 1) * Nat.pow 2 f.fraction

/-- The weight of the sign bit. -/
def signBit (f : Format) : Nat :=
  Nat.pow 2 (f.fraction + f.exponent)

/-- The value `m · 2 ^ q` of a pattern without its sign, if it is finite. -/
def magnitude? (f : Format) (bits : Nat) : Option (Nat × Int) :=
  let bits := bits % f.signBit
  if f.infinity ≤ bits then none
  else
    let e := bits / Nat.pow 2 f.fraction
    if e = 0 then some (bits, f.leastExponent)
    else some
      (bits % Nat.pow 2 f.fraction + Nat.pow 2 f.fraction, f.leastExponent + (e - 1))

end Format

/-- The whole number nearest to `num / den`, an exact tie going to the even one. -/
def roundDiv (num den : Nat) : Nat :=
  let n := num / den
  let r := num % den
  if 2 * r < den then n
  else if den < 2 * r then n + 1
  else n + n % 2

/-- The numerator and denominator of `num / den · b ^ e`. -/
def scale (b num den : Nat) (e : Int) : Nat × Nat :=
  if e < 0 then (num, den * Nat.pow b (-e).toNat) else (num * Nat.pow b e.toNat, den)

/-- The greatest `e` with `2 ^ e ≤ num / den`, for a positive quotient. -/
def floorLog2 (num den : Nat) : Int :=
  let e : Int := (num.log2 : Int) - den.log2
  let s := scale 2 1 1 e
  if den * s.1 ≤ num * s.2 then e else e - 1

namespace Format

/-- **The pattern nearest to `num / den`,** a tie going to the even pattern and what is too large to
infinity. -/
def round (f : Format) (num den : Nat) : Nat :=
  if num = 0 then 0
  else
    let q := max (floorLog2 num den - f.fraction) f.leastExponent
    let s := scale 2 num den (-q)
    min f.infinity ((q - f.leastExponent).toNat * Nat.pow 2 f.fraction + roundDiv s.1 s.2)

/-- The pattern in the format `g` of a value in the format `f`: the nearest one, the sign kept.  Of
a value that is no number the leading fraction bits are kept. -/
def convert (f g : Format) (bits : Nat) : Nat :=
  let sign := if bits / f.signBit % 2 = 1 then g.signBit else 0
  match f.magnitude? bits with
  | some (m, q) =>
    let s := scale 2 m 1 q
    sign + g.round s.1 s.2
  | none =>
    let payload := bits % Nat.pow 2 f.fraction
    sign + g.infinity +
      (if f.fraction ≤ g.fraction then payload * Nat.pow 2 (g.fraction - f.fraction)
        else payload / Nat.pow 2 (f.fraction - g.fraction))

/-- The pattern in the format `g`, if going there and back gives the same bits. -/
def convertExact? (f g : Format) (bits : Nat) : Option Nat :=
  let there := f.convert g bits
  if g.convert f there = bits then some there else none

end Format

/-- A number of 64 bits, known by its pattern. -/
structure Double where
  bits : UInt64
  deriving DecidableEq, Repr, Inhabited

namespace Double

/-- Whether the sign bit is set. -/
def isNegative (x : Double) : Bool :=
  Format.double.signBit ≤ x.bits.toNat

/-- The exact value without its sign, as `m · 2 ^ q`, if the number is finite. -/
def magnitude? (x : Double) : Option (Nat × Int) :=
  Format.double.magnitude? x.bits.toNat

/-- The same value, from a pattern of another width. -/
def widen (f : Format) (bits : Nat) : Double :=
  ⟨UInt64.ofNat (f.convert .double bits)⟩

/-- The same value as a pattern of another width, if no bit is lost. -/
def narrow? (f : Format) (x : Double) : Option Nat :=
  Format.double.convertExact? f x.bits.toNat

/-- Positive zero. -/
def zero : Double := ⟨0⟩

/-- The number with the given sign and magnitude pattern. -/
def ofMagnitude (negative : Bool) (bits : Nat) : Double :=
  ⟨UInt64.ofNat (bits + if negative then Format.double.signBit else 0)⟩

end Double

end KnxIoT.Decimal
