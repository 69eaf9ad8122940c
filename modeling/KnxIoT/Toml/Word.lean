import KnxIoT.Decimal.Read
import KnxIoT.Text.Blank
import KnxIoT.Text.Hex
import KnxIoT.Toml.Value
/-!
# TOML: words

Values that are written without quotation marks or brackets: booleans, whole numbers, numbers with a
fraction or an exponent, dates and times of day.  A word is read completely or not at all.
-/

namespace KnxIoT.Toml

/-! ### Numbers -/

/-- The digits of a row in which single underscores may stand between digits. -/
def readRow? (isDigit : Char → Bool) (cs : List Char) : Option (List Char) :=
  let groups := Text.splitWhere (· == '_') cs
  if groups.all fun g => !g.isEmpty && g.all isDigit then some groups.flatten else none

/-- A row of decimal digits. -/
def readDigits? (cs : List Char) : Option (List Char) :=
  readRow? Decimal.isDigit cs

/-- A row of decimal digits without a zero before others. -/
def readWhole? (cs : List Char) : Option (List Char) :=
  (readDigits? cs).filter fun ds => ds.head? ≠ some '0' || ds.length = 1

/-- A row of digits to a base of at most 16. -/
def readBase? (base : Nat) (cs : List Char) : Option Nat :=
  (readRow? (fun c => (Hex.value? c).any (· < base)) cs).map
    (·.foldl (fun n c => base * n + (Hex.value? c).getD 0) 0)

/-- A whole number of any size. -/
def readUnbounded? : List Char → Option Int
  | '0' :: 'x' :: cs => (readBase? 16 cs).map Int.ofNat
  | '0' :: 'o' :: cs => (readBase? 8 cs).map Int.ofNat
  | '0' :: 'b' :: cs => (readBase? 2 cs).map Int.ofNat
  | cs =>
    let (negative, rest) := Decimal.takeSign cs
    (readWhole? rest).map fun ds =>
      if negative then -(Decimal.ofDigits ds : Int) else Decimal.ofDigits ds

/-- A whole number, which must fit into 64 bits. -/
def readInteger? (cs : List Char) : Option Int :=
  (readUnbounded? cs).filter fun n => Int64.minValue.toInt ≤ n && n ≤ Int64.maxValue.toInt

/-- Whether the characters after a sign are a number with a fraction, an exponent or both. -/
def isFraction (cs : List Char) : Bool :=
  let (mantissa, exponent) := match Text.splitOnce 'e' (cs.map Decimal.lowerAscii) with
    | some (m, e) => (m, some (Decimal.takeSign e).2)
    | none => (cs, none)
  let (whole, places) := match Text.splitOnce '.' mantissa with
    | some (w, p) => (w, some p)
    | none => (mantissa, none)
  (exponent.isSome || places.isSome) && (readWhole? whole).isSome &&
    places.all (fun p => (readDigits? p).isSome) && exponent.all (fun e => (readDigits? e).isSome)

/-- A number with a fraction or an exponent, or one of the words for infinity and for no number.  A
positive number must not be too large for a double. -/
def readFloat? (cs : List Char) : Option Decimal.Double :=
  let rest := (Decimal.takeSign cs).2
  if rest = "inf".toList ∨ rest = "nan".toList then Decimal.readDouble? cs
  else if isFraction rest then
    (Decimal.readDouble? (cs.filter (· ≠ '_'))).filter
      fun x => x ≠ Decimal.Double.ofMagnitude false Decimal.Format.double.infinity
  else none

/-! ### Dates and times of day -/

/-- Whether two characters are the digits of a number up to `max`. -/
def isUpTo (max : Nat) (a b : Char) : Bool :=
  (Decimal.readNat? [a, b]).any (· ≤ max)

/-- Whether a year has a leap day. -/
def isLeap (year : Nat) : Bool :=
  year % 4 = 0 && (year % 100 ≠ 0 || year % 400 = 0)

/-- How many days a month has. -/
def daysIn (year month : Nat) : Nat :=
  if month = 2 then (if isLeap year then 29 else 28)
  else if month = 4 ∨ month = 6 ∨ month = 9 ∨ month = 11 then 30
  else 31

/-- Whether there is such a day. -/
def isDay (year month day : Nat) : Bool :=
  1 ≤ month && month ≤ 12 && 1 ≤ day && day ≤ daysIn year month

/-- What follows a date. -/
def dropDate? : List Char → Option (List Char)
  | y₁ :: y₂ :: y₃ :: y₄ :: '-' :: m₁ :: m₂ :: '-' :: d₁ :: d₂ :: rest =>
    match Decimal.readNat? [y₁, y₂, y₃, y₄], Decimal.readNat? [m₁, m₂],
      Decimal.readNat? [d₁, d₂] with
    | some year, some month, some day => if isDay year month day then some rest else none
    | _, _, _ => none
  | _ => none

/-- What follows a fraction of a second, if there is one. -/
def dropFraction? : List Char → Option (List Char)
  | '.' :: d :: rest =>
    if Decimal.isDigit d then some (rest.dropWhile Decimal.isDigit) else none
  | '.' :: [] => none
  | rest => some rest

/-- What follows a time of day.  The sixtieth second may be a leap second. -/
def dropTime? : List Char → Option (List Char)
  | h₁ :: h₂ :: ':' :: m₁ :: m₂ :: ':' :: s₁ :: s₂ :: rest =>
    if isUpTo 23 h₁ h₂ && isUpTo 59 m₁ m₂ && isUpTo 60 s₁ s₂ then dropFraction? rest else none
  | _ => none

/-- Whether the characters say how far the local time is ahead. -/
def isOffset : List Char → Bool
  | ['Z'] => true
  | ['z'] => true
  | [sign, h₁, h₂, ':', m₁, m₂] =>
    (sign == '+' || sign == '-') && isUpTo 23 h₁ h₂ && isUpTo 59 m₁ m₂
  | _ => false

/-- Whether the characters are what may follow a date: a time of day, perhaps with an offset. -/
def isTimeOfDate (cs : List Char) : Bool :=
  (dropTime? cs).any fun rest => rest.isEmpty || isOffset rest

/-- Whether the characters are a date alone. -/
def isDate (cs : List Char) : Bool :=
  (dropDate? cs).any List.isEmpty

/-- Whether the characters are a time of day alone. -/
def isTime (cs : List Char) : Bool :=
  (dropTime? cs).any List.isEmpty

/-- Whether the characters are a date, a time of day, or both with a letter between them. -/
def isMoment (cs : List Char) : Bool :=
  isTime cs ||
    match dropDate? cs with
    | some [] => true
    | some (c :: rest) => (c == 'T' || c == 't') && isTimeOfDate rest
    | none => false

/-! ### Words -/

/-- **The value of a word.** -/
def Value.ofWord? (cs : List Char) : Option Value :=
  if cs = "true".toList then some (.bool true)
  else if cs = "false".toList then some (.bool false)
  else if isMoment cs then some .moment
  else ((readFloat? cs).map Value.float).or ((readInteger? cs).map Value.int)

/-- Whether no word goes on with this character. -/
def endsWord (c : Char) : Bool :=
  c == ' ' || c == '\t' || c == '\n' || c == '#' || c == ',' || c == ']' || c == '}'

/-- The word at the front and what follows it. -/
def splitWord (cs : List Char) : List Char × List Char :=
  cs.span fun c => !endsWord c

/-- Whether a digit comes next. -/
def beginsWithDigit (cs : List Char) : Bool :=
  cs.head?.any Decimal.isDigit

/-- **The value of the word at the front.**  A blank may stand between a date and a time of day, so
these are two words with one value. -/
def readWord? (cs : List Char) : Option (Value × List Char) :=
  match splitWord cs with
  | (word, ' ' :: rest) =>
    if isDate word && beginsWithDigit rest then
      let (time, rest) := splitWord rest
      if isTimeOfDate time then some (.moment, rest) else none
    else (Value.ofWord? word).map fun v => (v, ' ' :: rest)
  | (word, rest) => (Value.ofWord? word).map fun v => (v, rest)

end KnxIoT.Toml
