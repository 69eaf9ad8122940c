import KnxIoT.LinkFormat.Split
import KnxIoT.Text.Blank
/-!
# Link format

Listings of links, `<target>;key=value;...`, separated by commas or line breaks.  Reading never
fails: what is malformed yields a link with whatever could be read.
-/

namespace KnxIoT

/-- One entry of a listing. -/
structure Link where
  /-- The target without its angle brackets. -/
  uri : String
  /-- Names and values in their order. -/
  params : List (String × String)
  deriving DecidableEq, Repr

namespace Link

/-- A parameter: a name and, after the first equals sign, a value with or without quotes. -/
def readParam (cs : List Char) : String × String :=
  match Text.splitOnce '=' cs with
  | some (k, v) =>
    (String.ofList (Text.trim k), String.ofList (Text.unwrap '"' '"' (Text.trim v)))
  | none => (String.ofList cs, "")

/-- The link that one piece of a listing stands for. -/
def read (cs : List Char) : Link :=
  match LinkFormat.splitTop (· == ';') cs with
  | [] => ⟨"", []⟩
  | target :: params =>
    { uri := String.ofList (Text.unwrap '<' '>' (Text.trim target))
      params := ((params.map Text.trim).filter (· ≠ [])).map readParam }

/-- The value of the first parameter with the given name. -/
def param? (l : Link) (key : String) : Option String :=
  l.params.lookup key

/-- The first word of a parameter's value. -/
def firstValue? (l : Link) (key : String) : Option String :=
  (l.param? key).bind fun v => (Text.words v.toList).head?.map String.ofList

end Link

namespace LinkFormat

/-- The characters between the links of a listing. -/
def separatesLinks (c : Char) : Bool :=
  c == ',' || c == '\n' || c == '\r'

/-- **The links of a listing,** in document order. -/
def parse (text : String) : List Link :=
  (((splitTop separatesLinks text.toList).map Text.trim).filter (· ≠ [])).map Link.read

end LinkFormat

end KnxIoT
