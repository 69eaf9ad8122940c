/-!
# Link format: cutting at the top level

A separator counts only outside double quotes and outside a target between angle brackets.  The
state of the scan says where it is; `splitTop` cuts a text at the separators that count.
-/

namespace KnxIoT.LinkFormat

/-- Where a scan is. -/
structure Scan where
  /-- Inside double quotes. -/
  quoted : Bool
  /-- Inside a target. -/
  target : Bool
  deriving DecidableEq, Repr

namespace Scan

/-- Outside of quotes and targets. -/
def outside : Scan := ⟨false, false⟩

/-- The state after a character.  Brackets inside quotes have no meaning. -/
def step (s : Scan) (c : Char) : Scan :=
  if c = '"' then { s with quoted := !s.quoted }
  else if s.quoted then s
  else if c = '<' then { s with target := true }
  else if c = '>' then { s with target := false }
  else s

/-- The state after a text. -/
def run (s : Scan) (cs : List Char) : Scan :=
  cs.foldl step s

/-- Whether a character is a separator that counts. -/
def cuts (sep : Char → Bool) (s : Scan) (c : Char) : Bool :=
  !s.quoted && !s.target && c != '"' && c != '<' && c != '>' && sep c

end Scan

/-- The pieces of a text that is scanned from the given state. -/
def splitFrom (sep : Char → Bool) (s : Scan) : List Char → List (List Char)
  | [] => [[]]
  | c :: cs =>
    if s.cuts sep c then [] :: splitFrom sep s cs
    else match splitFrom sep (s.step c) cs with
      | [] => [[c]]
      | w :: ws => (c :: w) :: ws

/-- **The pieces between the separators that count,** in order. -/
def splitTop (sep : Char → Bool) (cs : List Char) : List (List Char) :=
  splitFrom sep .outside cs

end KnxIoT.LinkFormat
