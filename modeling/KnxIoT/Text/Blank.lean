/-!
# Text: blanks

Which characters count as blank, and what is done with them: trimming both ends of a text and
cutting it into words.  All functions work on lists of characters, so a position is never in the
middle of a character.
-/

namespace KnxIoT.Text

/-- The characters with the Unicode property `White_Space`. -/
def isBlank (c : Char) : Bool :=
  let n := c.toNat
  (9 ≤ n && n ≤ 13) || n == 0x20 || n == 0x85 || n == 0xA0 || n == 0x1680 ||
    (0x2000 ≤ n && n ≤ 0x200A) || n == 0x2028 || n == 0x2029 || n == 0x202F || n == 0x205F ||
    n == 0x3000

/-- The text without the blanks at its end. -/
def trimEnd (cs : List Char) : List Char :=
  (cs.reverse.dropWhile isBlank).reverse

/-- The text without the blanks at its ends. -/
def trim (cs : List Char) : List Char :=
  trimEnd (cs.dropWhile isBlank)

/-- The pieces between the characters that satisfy `p`, those at the ends included. -/
def splitWhere (p : Char → Bool) : List Char → List (List Char)
  | [] => [[]]
  | c :: cs =>
    if p c then [] :: splitWhere p cs
    else match splitWhere p cs with
      | [] => [[c]]
      | w :: ws => (c :: w) :: ws

/-- The maximal runs of characters that are not blank, in order. -/
def words (cs : List Char) : List (List Char) :=
  (splitWhere isBlank cs).filter (· ≠ [])

/-- What stands before and after the first `c`, if there is one. -/
def splitOnce (c : Char) : List Char → Option (List Char × List Char)
  | [] => none
  | d :: cs =>
    if d = c then some ([], cs)
    else (splitOnce c cs).map fun (a, b) => (d :: a, b)

/-- The text without the given beginning, if it begins so. -/
def dropStart? : List Char → List Char → Option (List Char)
  | [], cs => some cs
  | _ :: _, [] => none
  | p :: ps, c :: cs => if p = c then dropStart? ps cs else none

/-- The text without a last character `c`, if it ends so. -/
def dropLast? (c : Char) (cs : List Char) : Option (List Char) :=
  match cs.reverse with
  | d :: r => if d = c then some r.reverse else none
  | [] => none

/-- The text between a first `l` and a last `r`, which must be two characters; otherwise all
of it. -/
def unwrap (l r : Char) (cs : List Char) : List Char :=
  match cs with
  | c :: rest => if c = l then (dropLast? r rest).getD cs else cs
  | [] => cs

end KnxIoT.Text
