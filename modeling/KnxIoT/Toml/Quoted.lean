import KnxIoT.Text.Hex
/-!
# TOML: quoted texts

Texts between quotation marks, on one line or on several.  Double marks allow escapes, single marks
do not.  A reader gets the characters after the opening marks and gives the text and what follows
its closing marks.  Lines end with a line feed; `unifyLineEnds` sees to that before anything is
read.
-/

namespace KnxIoT.Toml

/-- The characters with a single line feed for each end of line. -/
def unifyLineEnds : List Char → List Char
  | '\r' :: '\n' :: cs => '\n' :: unifyLineEnds cs
  | c :: cs => c :: unifyLineEnds cs
  | [] => []

/-- A blank within a line. -/
def isSpace (c : Char) : Bool :=
  c == ' ' || c == '\t'

/-- Whether the character may stand in a comment or a text: the tab is the only control character
that may, except those above ASCII. -/
def isPlain (c : Char) : Bool :=
  c == '\t' || (0x20 ≤ c.toNat && c.toNat ≠ 0x7F)

/-- How a text is quoted. -/
structure Quoting where
  mark : Char
  /-- Whether a backslash begins an escape. -/
  escapes : Bool
  deriving DecidableEq, Repr

/-- Double marks. -/
def Quoting.basic : Quoting := ⟨'"', true⟩

/-- Single marks. -/
def Quoting.literal : Quoting := ⟨'\'', false⟩

/-- The character with a number. -/
def scalar? (n : Nat) : Option Char :=
  if n.isValidChar then some (Char.ofNat n) else none

/-- The character whose number stands in the first `n` characters, in hexadecimal. -/
def numbered? (n : Nat) (cs : List Char) : Option Char :=
  let digits := (cs.take n).filterMap Hex.value?
  if digits.length = n then scalar? (digits.foldl (fun m d => 16 * m + d) 0) else none

/-- The character for an escape, after its backslash, and how many characters the escape has. -/
def escape? : List Char → Option (Char × Nat)
  | 'b' :: _ => some ('\x08', 1)
  | 't' :: _ => some ('\t', 1)
  | 'n' :: _ => some ('\n', 1)
  | 'f' :: _ => some ('\x0c', 1)
  | 'r' :: _ => some ('\r', 1)
  | '"' :: _ => some ('"', 1)
  | '\\' :: _ => some ('\\', 1)
  | 'u' :: cs => (numbered? 4 cs).map fun c => (c, 5)
  | 'U' :: cs => (numbered? 8 cs).map fun c => (c, 9)
  | _ => none

theorem length_dropWhile_le {α : Type} (p : α → Bool) (l : List α) :
    (l.dropWhile p).length ≤ l.length :=
  (List.dropWhile_sublist p).length_le

/-- A text on one line. -/
def readLine? (q : Quoting) : List Char → Option (List Char × List Char)
  | [] => none
  | c :: cs =>
    if c = q.mark then some ([], cs)
    else if q.escapes ∧ c = '\\' then
      match escape? cs with
      | none => none
      | some (d, n) => (readLine? q (cs.drop n)).map fun (text, rest) => (d :: text, rest)
    else if isPlain c then (readLine? q cs).map fun (text, rest) => (c :: text, rest)
    else none
termination_by cs => cs.length
decreasing_by
  · simp only [List.length_cons, List.length_drop]
    omega
  · simp only [List.length_cons]
    omega

/-- What follows a backslash that ends a line: the first line that is not blank, without the blanks
before it. -/
def joinLines? (cs : List Char) : Option (List Char) :=
  match cs.dropWhile isSpace with
  | '\n' :: rest => some (rest.dropWhile fun c => isSpace c || c == '\n')
  | _ => none

theorem length_joinLines?_le {cs rest : List Char} (h : joinLines? cs = some rest) :
    rest.length ≤ cs.length := by
  unfold joinLines? at h
  split at h
  · next r hr =>
    have h₁ := length_dropWhile_le isSpace cs
    have h₂ := length_dropWhile_le (fun c => isSpace c || c == '\n') r
    rw [hr, List.length_cons] at h₁
    injection h with h
    subst h
    omega
  · simp at h

/-- A text on any number of lines.  One or two marks are part of it, and so are the first marks of a
row of up to five that ends it. -/
def readLines? (q : Quoting) : List Char → Option (List Char × List Char)
  | [] => none
  | c :: cs =>
    if c = q.mark then
      let row := 1 + (cs.takeWhile (· = q.mark)).length
      let rest := cs.dropWhile (· = q.mark)
      if row < 3 then
        (readLines? q rest).map fun (text, rest) => (List.replicate row q.mark ++ text, rest)
      else if row < 6 then some (List.replicate (row - 3) q.mark, rest)
      else none
    else if q.escapes ∧ c = '\\' then
      match _h : joinLines? cs with
      | some rest => readLines? q rest
      | none =>
        match escape? cs with
        | none => none
        | some (d, n) => (readLines? q (cs.drop n)).map fun (text, rest) => (d :: text, rest)
    else if isPlain c || c == '\n' then
      (readLines? q cs).map fun (text, rest) => (c :: text, rest)
    else none
termination_by cs => cs.length
decreasing_by
  · have := length_dropWhile_le (· = q.mark) cs
    simp only [List.length_cons]
    omega
  · have := length_joinLines?_le _h
    simp only [List.length_cons]
    omega
  · simp only [List.length_cons, List.length_drop]
    omega
  · simp only [List.length_cons]
    omega

/-- The characters without a line end at the front. -/
def dropLineEnd : List Char → List Char
  | '\n' :: cs => cs
  | cs => cs

/-- A text with its marks on one line, as keys are quoted. -/
def readQuotedKey? : List Char → Option (List Char × List Char)
  | '"' :: cs => readLine? .basic cs
  | '\'' :: cs => readLine? .literal cs
  | _ => none

/-- **A text with its marks,** three of which begin a text on several lines. -/
def readQuoted? : List Char → Option (List Char × List Char)
  | '"' :: '"' :: '"' :: cs => readLines? .basic (dropLineEnd cs)
  | '\'' :: '\'' :: '\'' :: cs => readLines? .literal (dropLineEnd cs)
  | cs => readQuotedKey? cs

end KnxIoT.Toml
