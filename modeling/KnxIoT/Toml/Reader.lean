import KnxIoT.Toml.Quoted
import KnxIoT.Toml.Word
/-!
# TOML: reading documents

A document is a sequence of statements, each on a line of its own: an entry, the header of a table
or the header of an element of an array of tables.  Arrays and tables in braces may be nested, at
most `maxNesting` levels deep, which bounds the recursion; and a path has at most as many keys.
-/

namespace KnxIoT.Toml

/-- How deep values may be nested, and how many keys a path may have. -/
def maxNesting : Nat := 79

/-- The characters without the blanks at the front. -/
def skipSpaces (cs : List Char) : List Char :=
  cs.dropWhile isSpace

/-- The characters without blanks, comments and line ends at the front. -/
def skipLines : List Char → List Char
  | [] => []
  | c :: cs =>
    if isSpace c || c == '\n' then skipLines cs
    else if c = '#' then skipLines (cs.dropWhile isPlain)
    else c :: cs
termination_by cs => cs.length
decreasing_by
  · simp only [List.length_cons]
    omega
  · have := length_dropWhile_le isPlain cs
    simp only [List.length_cons]
    omega

/-- What follows the rest of a line, if that is blank except for a comment. -/
def endLine? (cs : List Char) : Option (List Char) :=
  let rest := match skipSpaces cs with
    | '#' :: cs => cs.dropWhile isPlain
    | cs => cs
  match rest with
  | [] => some []
  | '\n' :: rest => some rest
  | _ => none

/-! ### Keys -/

/-- Whether the character may stand in a key without quotation marks. -/
def isBare (c : Char) : Bool :=
  ('a' ≤ c && c ≤ 'z') || ('A' ≤ c && c ≤ 'Z') || ('0' ≤ c && c ≤ '9') || c == '-' || c == '_'

/-- A key. -/
def readKey? (cs : List Char) : Option (String × List Char) :=
  match cs.span isBare with
  | ([], _) => (readQuotedKey? cs).map fun (k, rest) => (String.ofList k, rest)
  | (k, rest) => some (String.ofList k, rest)

/-- A path of at most `limit` keys with points between them, and the blanks around it. -/
def readPath? : (limit : Nat) → List Char → Option (Path × List Char)
  | 0, _ => none
  | limit + 1, cs =>
    (readKey? (skipSpaces cs)).bind fun (k, rest) =>
      match skipSpaces rest with
      | '.' :: rest =>
        (readPath? limit rest).map fun (p, rest) => ({ p with above := k :: p.above }, rest)
      | rest => some ({ above := [], key := k }, rest)

/-! ### Values -/

/-- A path, an equals sign and a value. -/
def readPair? (read : List Char → Option (Value × List Char)) (cs : List Char) :
    Option ((Path × Value) × List Char) :=
  (readPath? maxNesting cs).bind fun (p, rest) =>
    match rest with
    | '=' :: rest => (read (skipSpaces rest)).map fun (v, rest) => ((p, v), rest)
    | _ => none

/-- The items of an array after its bracket.  There may be a comma after the last one. -/
def readItems? (read : List Char → Option (Value × List Char)) :
    (fuel : Nat) → List Char → Option (List Value × List Char)
  | 0, _ => none
  | fuel + 1, cs =>
    match skipLines cs with
    | ']' :: rest => some ([], rest)
    | cs =>
      (read cs).bind fun (v, rest) =>
        match skipLines rest with
        | ',' :: rest => (readItems? read fuel rest).map fun (vs, rest) => (v :: vs, rest)
        | ']' :: rest => some ([v], rest)
        | _ => none

/-- Entries up to a brace, after those in `es`.  There is no comma after the last one. -/
def readEntries? (read : List Char → Option (Value × List Char)) :
    (fuel : Nat) → (es : Entries) → List Char → Option (Entries × List Char)
  | 0, _, _ => none
  | fuel + 1, es, cs =>
    (readPair? read cs).bind fun ((p, v), rest) =>
      (es.put p v).bind fun es =>
        match skipSpaces rest with
        | ',' :: rest => readEntries? read fuel es rest
        | '}' :: rest => some (es, rest)
        | _ => none

/-- The entries of a table after its brace. -/
def readBraces? (read : List Char → Option (Value × List Char)) (cs : List Char) :
    Option (Entries × List Char) :=
  match skipSpaces cs with
  | '}' :: rest => some ([], rest)
  | cs => readEntries? read (cs.length + 1) [] cs

/-- **One value,** with at most `levels` levels of nesting. -/
def readValue? (levels : Nat) (cs : List Char) : Option (Value × List Char) :=
  match cs with
  | '[' :: rest =>
    match levels with
    | 0 => none
    | levels + 1 =>
      (readItems? (readValue? levels) (rest.length + 1) rest).map
        fun (items, rest) => (.array items, rest)
  | '{' :: rest =>
    match levels with
    | 0 => none
    | levels + 1 =>
      (readBraces? (readValue? levels) rest).map fun (es, rest) => (.table .inline es, rest)
  | '"' :: _ => (readQuoted? cs).map fun (s, rest) => (.str (String.ofList s), rest)
  | '\'' :: _ => (readQuoted? cs).map fun (s, rest) => (.str (String.ofList s), rest)
  | _ => readWord? cs

/-! ### Documents -/

/-- The document after one statement, without the rest of its line. -/
def readStatement? (d : Document) (cs : List Char) : Option (Document × List Char) :=
  match skipSpaces cs with
  | '[' :: '[' :: cs =>
    (readPath? maxNesting cs).bind fun (p, rest) =>
      match rest with
      | ']' :: ']' :: rest => (d.openElement p).map fun d => (d, rest)
      | _ => none
  | '[' :: cs =>
    (readPath? maxNesting cs).bind fun (p, rest) =>
      match rest with
      | ']' :: rest => (d.openTable p).map fun d => (d, rest)
      | _ => none
  | cs =>
    (readPair? (readValue? maxNesting) cs).bind fun ((p, v), rest) =>
      (d.put p v).map fun d => (d, rest)

/-- The document after all statements. -/
def readStatements? : (fuel : Nat) → Document → List Char → Option Document
  | _, d, [] => some d
  | 0, _, _ => none
  | fuel + 1, d, cs =>
    match endLine? cs with
    | some rest => readStatements? fuel d rest
    | none =>
      (readStatement? d cs).bind fun (d, rest) =>
        (endLine? rest).bind fun rest => readStatements? fuel d rest

/-- The characters without a mark of the byte order at the front. -/
def dropByteOrderMark : List Char → List Char
  | '\uFEFF' :: cs => cs
  | cs => cs

/-- **The entries of a document.** -/
def read? (text : String) : Option Entries :=
  let cs := unifyLineEnds (dropByteOrderMark text.toList)
  (readStatements? cs.length {} cs).map Document.entries

end KnxIoT.Toml
