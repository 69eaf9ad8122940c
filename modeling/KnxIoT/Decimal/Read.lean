import KnxIoT.Decimal.Binary
/-!
# Decimal: reading numbers

Texts of whole numbers and of numbers with a fraction and an exponent.  A text is read completely or
not at all; a number with a fraction is rounded once, from its exact decimal value.
-/

namespace KnxIoT.Decimal

/-- The value of a decimal digit. -/
def digit? (c : Char) : Option Nat :=
  if '0' ≤ c ∧ c ≤ '9' then some (c.toNat - '0'.toNat) else none

/-- Whether the character is a decimal digit. -/
def isDigit (c : Char) : Bool :=
  (digit? c).isSome

/-- The number that a row of digits stands for. -/
def ofDigits (cs : List Char) : Nat :=
  cs.foldl (fun n c => 10 * n + (digit? c).getD 0) 0

/-- A row of digits, at least one. -/
def readNat? (cs : List Char) : Option Nat :=
  if cs ≠ [] ∧ cs.all isDigit then some (ofDigits cs) else none

/-- A sign, if there is one, and what follows it. -/
def takeSign : List Char → Bool × List Char
  | '-' :: cs => (true, cs)
  | '+' :: cs => (false, cs)
  | cs => (false, cs)

/-- A whole number with an optional sign. -/
def readInt? (cs : List Char) : Option Int :=
  let (negative, rest) := takeSign cs
  (readNat? rest).map fun n => if negative then -(n : Int) else n

/-- A whole number without a minus sign that is at most `max`. -/
def readBounded? (max : Nat) (cs : List Char) : Option Nat :=
  match cs with
  | '-' :: _ => none
  | _ => (readNat? (takeSign cs).2).filter (· ≤ max)

/-- A number as it is written: `mantissa · 10 ^ exponent`. -/
structure Written where
  /-- All digits before the exponent. -/
  mantissa : Nat
  /-- The power of ten of the last of them. -/
  exponent : Int
  deriving DecidableEq, Repr

/-- The digits of an exponent.  From 65536 on further digits are not counted: no double is that
large or that small. -/
def exponentOfDigits (cs : List Char) : Nat :=
  cs.foldl (fun n c => if n < 65536 then 10 * n + (digit? c).getD 0 else n) 0

/-- An exponent mark with its number; no text at all means no exponent. -/
def readExponent? : List Char → Option Int
  | [] => some 0
  | c :: cs =>
    if c = 'e' ∨ c = 'E' then
      let (negative, rest) := takeSign cs
      if rest ≠ [] ∧ rest.all isDigit then
        let n : Int := exponentOfDigits rest
        some (if negative then -n else n)
      else none
    else none

/-- Digits with an optional point among them or at one end, and an optional exponent. -/
def Written.read? (cs : List Char) : Option Written :=
  let whole := cs.takeWhile isDigit
  let rest := cs.dropWhile isDigit
  let (places, rest) := match rest with
    | '.' :: rest => (rest.takeWhile isDigit, rest.dropWhile isDigit)
    | _ => ([], rest)
  if whole = [] ∧ places = [] then none
  else (readExponent? rest).map fun e =>
    { mantissa := ofDigits (whole ++ places), exponent := e - places.length }

/-- The pattern of the double nearest to the number.  Outside the range of doubles the powers of ten
need not be computed. -/
def Written.round (w : Written) : Nat :=
  if w.mantissa = 0 then 0
  else
    let size : Int := (Nat.toDigits 10 w.mantissa).length + w.exponent
    if 400 < size then Format.double.infinity
    else if size < -400 then 0
    else
      let s := scale 10 w.mantissa 1 w.exponent
      Format.double.round s.1 s.2

/-- The pattern of a number that is none: the quiet one without further bits. -/
def notANumber : Nat :=
  Format.double.infinity + Nat.pow 2 (Format.double.fraction - 1)

/-- An ASCII letter in lower case; any other character unchanged. -/
def lowerAscii (c : Char) : Char :=
  if 'A' ≤ c ∧ c ≤ 'Z' then Char.ofNat (c.toNat + 32) else c

/-- The words for values that are not finite numbers. -/
def special? (cs : List Char) : Option Nat :=
  match String.ofList (cs.map lowerAscii) with
  | "inf" => some Format.double.infinity
  | "infinity" => some Format.double.infinity
  | "nan" => some notANumber
  | _ => none

/-- A number with an optional sign, fraction and exponent, or one of the words for infinity and for
no number. -/
def readDouble? (cs : List Char) : Option Double :=
  let (negative, rest) := takeSign cs
  ((special? rest).or ((Written.read? rest).map Written.round)).map (Double.ofMagnitude negative)

end KnxIoT.Decimal
