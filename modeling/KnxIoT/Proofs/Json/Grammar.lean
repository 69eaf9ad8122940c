import KnxIoT.Json
import KnxIoT.Decimal.Read
import KnxIoT.Text.Hex
import Mathlib.Data.Nat.Notation
import Mathlib.Data.Int.Notation

/-! # JSON: documents

Which texts are JSON documents, and of which value (`Document`): values with blanks around them and
around the marks that divide them, characters of a string as they are or escaped, numbers with or
without a fraction and an exponent. Members stay in the order in which they are written. -/

namespace KnxIoT.Json

/-! ### Blanks and words -/

/-- The blanks between the parts of a document. -/
def blanks : List Char := [' ', '\t', '\n', '\r']

/-- Nothing but blanks. -/
def Gap (g : List Char) : Prop := ∀ c ∈ g, c ∈ blanks

/-- The values that are written as words. -/
def words : List (Json × List Char) :=
  [(.null, ['n', 'u', 'l', 'l']), (.bool true, ['t', 'r', 'u', 'e']),
    (.bool false, ['f', 'a', 'l', 's', 'e'])]

/-! ### Strings -/

/-- The character that a letter after a backslash stands for. -/
def ofLetter? (e : Char) : Option Char :=
  [('"', '"'), ('\\', '\\'), ('/', '/'), ('b', '\x08'), ('f', '\x0c'), ('n', '\n'), ('r', '\r'),
    ('t', '\t')].lookup e

/-- The number in four hexadecimal digits. -/
def unit? : List Char → Option ℕ
  | [a, b, c, d] => do
    let a ← Hex.value? a
    let b ← Hex.value? b
    let c ← Hex.value? c
    let d ← Hex.value? d
    pure (4096 * a + 256 * b + 16 * c + d)
  | _ => none

/-- The first half of a character outside the first plane. -/
def IsHigh (n : ℕ) : Prop := 0xD800 ≤ n ∧ n < 0xDC00

/-- The second half. -/
def IsLow (n : ℕ) : Prop := 0xDC00 ≤ n ∧ n < 0xE000

instance (n : ℕ) : Decidable (IsHigh n) := instDecidableAnd

instance (n : ℕ) : Decidable (IsLow n) := instDecidableAnd

/-- The character with the given halves. -/
def joined (high low : ℕ) : Char :=
  Char.ofNat (0x10000 + 1024 * (high - 0xD800) + (low - 0xDC00))

/-- What stands after `\u` for a character: one number, or two with `\u` between them. -/
inductive Coded : Char → List Char → Prop
  | unit {ds : List Char} {n : ℕ} (h : unit? ds = some n) (hhigh : ¬ IsHigh n) (hlow : ¬ IsLow n) :
      Coded (Char.ofNat n) ds
  | pair {ds ds' : List Char} {high low : ℕ} (h : unit? ds = some high) (hhigh : IsHigh high)
      (h' : unit? ds' = some low) (hlow : IsLow low) :
      Coded (joined high low) (ds ++ '\\' :: 'u' :: ds')

/-- The ways to write a character in a string. -/
inductive Spells : Char → List Char → Prop
  | plain {c : Char} (hquote : c ≠ '"') (hslash : c ≠ '\\') (hcontrol : 32 ≤ c.toNat) :
      Spells c [c]
  | letter {e c : Char} (h : ofLetter? e = some c) : Spells c ['\\', e]
  | coded {c : Char} {t : List Char} (h : Coded c t) : Spells c ('\\' :: 'u' :: t)

/-- The ways to write characters one after the other. -/
inductive Spelled : List Char → List Char → Prop
  | nil : Spelled [] []
  | cons {c : Char} {cs t ts : List Char} (hc : Spells c t) (hcs : Spelled cs ts) :
      Spelled (c :: cs) (t ++ ts)

/-- A string between its quotes. -/
inductive Quoted : String → List Char → Prop
  | mk {cs t : List Char} (h : Spelled cs t) : Quoted (String.ofList cs) ('"' :: t ++ ['"'])

/-! ### Numbers -/

/-- Digits, at least one. -/
def Digits (cs : List Char) : Prop := cs ≠ [] ∧ cs.all Decimal.isDigit = true

/-- Digits without a needless zero at the front. -/
def Natural (cs : List Char) : Prop := Digits cs ∧ (cs.head? = some '0' → cs = ['0'])

/-- A point and digits, or nothing. -/
def Places (cs : List Char) : Prop := cs = [] ∨ cs.head? = some '.' ∧ Digits cs.tail

/-- An exponent, or nothing. -/
def Power (cs : List Char) : Prop :=
  cs = [] ∨ (cs.head? = some 'e' ∨ cs.head? = some 'E') ∧ Digits (Decimal.takeSign cs.tail).2

instance (cs : List Char) : Decidable (Digits cs) := instDecidableAnd

instance (cs : List Char) : Decidable (Natural cs) := instDecidableAnd

instance (cs : List Char) : Decidable (Places cs) := instDecidableOr

instance (cs : List Char) : Decidable (Power cs) := instDecidableOr

/-- The sign of a number. -/
def sign (negative : Bool) : List Char := if negative then ['-'] else []

/-- The value of digits with a sign. -/
def signed (negative : Bool) (cs : List Char) : ℤ :=
  if negative then -(Decimal.ofDigits cs : ℤ) else Decimal.ofDigits cs

/-- **Numbers.** One with a fraction or an exponent is a double. -/
inductive Number : Json → List Char → Prop
  | whole (negative : Bool) {cs : List Char} (h : Natural cs) :
      Number (.int (signed negative cs)) (sign negative ++ cs)
  | double (negative : Bool) {cs places power : List Char} {x : Decimal.Double} (h : Natural cs)
      (hplaces : Places places) (hpower : Power power) (hne : places ++ power ≠ [])
      (hx : Decimal.readDouble? (sign negative ++ (cs ++ (places ++ power))) = some x) :
      Number (.double x) (sign negative ++ (cs ++ (places ++ power)))

/-! ### Values -/

/-- A key with blanks around it. -/
inductive PaddedKey : String → List Char → Prop
  | mk {k : String} {g t g' : List Char} (hg : Gap g) (h : Quoted k t) (hg' : Gap g') :
      PaddedKey k (g ++ t ++ g')

mutual

/-- **The texts of a value.** -/
inductive Value : Json → List Char → Prop
  | word {j : Json} {t : List Char} (h : (j, t) ∈ words) : Value j t
  | number {j : Json} {t : List Char} (h : Number j t) : Value j t
  | str {s : String} {t : List Char} (h : Quoted s t) : Value (.str s) t
  | emptyArr {g : List Char} (hg : Gap g) : Value (.arr []) ('[' :: g ++ [']'])
  | arr {items : List Json} {t : List Char} (h : Items items t) :
      Value (.arr items) ('[' :: t ++ [']'])
  | emptyObj {g : List Char} (hg : Gap g) : Value (.obj []) ('{' :: g ++ ['}'])
  | obj {members : List (String × Json)} {t : List Char} (h : Members members t) :
      Value (.obj members) ('{' :: t ++ ['}'])

/-- A value with blanks around it. -/
inductive Padded : Json → List Char → Prop
  | mk {j : Json} {g t g' : List Char} (hg : Gap g) (h : Value j t) (hg' : Gap g') :
      Padded j (g ++ t ++ g')

/-- The items of an array, at least one. -/
inductive Items : List Json → List Char → Prop
  | one {j : Json} {t : List Char} (h : Padded j t) : Items [j] t
  | cons {j : Json} {js : List Json} {t ts : List Char} (h : Padded j t) (hs : Items js ts) :
      Items (j :: js) (t ++ ',' :: ts)

/-- The members of an object, at least one. -/
inductive Members : List (String × Json) → List Char → Prop
  | one {k : String} {j : Json} {tk t : List Char} (hk : PaddedKey k tk) (h : Padded j t) :
      Members [(k, j)] (tk ++ ':' :: t)
  | cons {k : String} {j : Json} {ms : List (String × Json)} {tk t ts : List Char}
      (hk : PaddedKey k tk) (h : Padded j t) (hs : Members ms ts) :
      Members ((k, j) :: ms) (tk ++ ':' :: (t ++ ',' :: ts))

end

/-- **A text is a document of a value.** -/
def Document (j : Json) (text : String) : Prop := Padded j text.toList

end KnxIoT.Json
