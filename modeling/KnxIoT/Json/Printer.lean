import KnxIoT.Json
import KnxIoT.Text.Hex
import KnxIoT.Decimal.Shortest
/-!
# JSON: compact text

The compact text of a JSON value: no blanks, the members of an object in their order.  A string is
written with the short escapes where there is one, `\u00xx` for the other control characters, and
all else as it is.  A double is written with its shortest digits, in positional notation when its
first digit stands between `10 ^ -5` and `10 ^ 15` and otherwise with an exponent that always has a
sign, and one that is not finite is `null`.
-/

namespace KnxIoT.Json

/-- The text of one character inside a string. -/
def escape (c : Char) : List Char :=
  if c = '"' then ['\\', '"']
  else if c = '\\' then ['\\', '\\']
  else if c = '\x08' then ['\\', 'b']
  else if c = '\t' then ['\\', 't']
  else if c = '\n' then ['\\', 'n']
  else if c = '\x0c' then ['\\', 'f']
  else if c = '\r' then ['\\', 'r']
  else if c.toNat < 32 then
    ['\\', 'u', '0', '0', Hex.digit (c.toNat / 16), Hex.digit (c.toNat % 16)]
  else [c]

/-- A string between its quotes. -/
def quote (s : String) : List Char :=
  '"' :: s.toList.flatMap escape ++ ['"']

/-- The text of a whole number. -/
def intText (n : Int) : List Char :=
  match n with
  | .ofNat n => Nat.toDigits 10 n
  | .negSucc n => '-' :: Nat.toDigits 10 (n + 1)

/-- Digits as positional or exponential notation. -/
def layout (d : Decimal.Digits) : List Char :=
  let n := d.digits.length
  if 0 ≤ d.exponent ∧ d.exponent ≤ 15 then
    let whole := d.exponent.toNat + 1
    if n ≤ whole then d.digits ++ List.replicate (whole - n) '0' ++ ['.', '0']
    else d.digits.take whole ++ '.' :: d.digits.drop whole
  else if -5 ≤ d.exponent ∧ d.exponent < 0 then
    '0' :: '.' :: List.replicate ((-d.exponent).toNat - 1) '0' ++ d.digits
  else
    let places := d.digits.drop 1
    d.digits.take 1 ++ (if places = [] then [] else '.' :: places) ++
      'e' :: (if 0 ≤ d.exponent then ['+'] else []) ++ intText d.exponent

/-- The text of a double. -/
def doubleText (x : Decimal.Double) : List Char :=
  match x.magnitude? with
  | none => ['n', 'u', 'l', 'l']
  | some (m, q) =>
    (if x.isNegative then ['-'] else []) ++
      if m = 0 then ['0', '.', '0'] else layout (Decimal.shortestDigits m q)

/-- Pieces with a comma between each two of them. -/
def commas : List (List Char) → List Char
  | [] => []
  | [t] => t
  | t :: ts => t ++ ',' :: commas ts

mutual

/-- **The compact text of a value.** -/
def chars : Json → List Char
  | .null => ['n', 'u', 'l', 'l']
  | .bool true => ['t', 'r', 'u', 'e']
  | .bool false => ['f', 'a', 'l', 's', 'e']
  | .int n => intText n
  | .double x => doubleText x
  | .str s => quote s
  | .arr items => '[' :: commas (itemTexts items) ++ [']']
  | .obj members => '{' :: commas (memberTexts members) ++ ['}']

/-- The texts of the items of an array. -/
def itemTexts : List Json → List (List Char)
  | [] => []
  | j :: js => chars j :: itemTexts js

/-- The texts of the members of an object. -/
def memberTexts : List (String × Json) → List (List Char)
  | [] => []
  | (k, j) :: ms => (quote k ++ ':' :: chars j) :: memberTexts ms

end

/-- The compact text of a value. -/
def compact (j : Json) : String :=
  String.ofList (chars j)

end KnxIoT.Json
