import KnxIoT.Decimal.Binary
/-!
# TOML: values and tables

What a document says: values under keys.  The entries of a table keep the order in which they were
written.  A table remembers how it came into being, because that decides where it may still be added
to: a table that a header or braces define is closed to dotted keys, and only tables that were
merely passed on the way to another header can get a header of their own.
-/

namespace KnxIoT.Toml

/-- How a table came into being. -/
inductive Form where
  /-- It is written in braces. -/
  | inline
  /-- It has a header. -/
  | header
  /-- It lies on the way to a table with a header. -/
  | implied
  /-- It lies on the way to the end of a dotted key. -/
  | dotted
  deriving DecidableEq, Repr

/-- A value.  Of a date or a time of day only the kind is kept. -/
inductive Value where
  | str (s : String)
  | int (n : Int)
  | float (x : Decimal.Double)
  | bool (b : Bool)
  | moment
  | array (items : List Value)
  | table (form : Form) (entries : List (String × Value))
  | tables (elements : List (List (String × Value)))
  deriving Inhabited

/-- The entries of a table, in order. -/
abbrev Entries := List (String × Value)

/-- Whether the value is an array or a table with nothing in it. -/
def Value.isEmpty : Value → Bool
  | .array items => items.isEmpty
  | .table _ entries => entries.isEmpty
  | .tables elements => elements.isEmpty
  | _ => false

/-- A key with the keys of the tables in which it lies. -/
structure Path where
  /-- The keys of the tables, from the outside. -/
  above : List String
  key : String
  deriving DecidableEq, Repr

/-- All keys of a path. -/
def Path.keys (p : Path) : List String :=
  p.above ++ [p.key]

/-- Whether a way that makes tables of the one form may lead through a table of the other form. -/
def Form.mayLeadThrough : (made there : Form) → Bool
  | _, .inline => false
  | .dotted, .header => false
  | _, _ => true

namespace Entries

/-- The entries with another value for a key: in its place, or at the end. -/
def set (key : String) (v : Value) : Entries → Entries
  | [] => [(key, v)]
  | (k, w) :: es => if k = key then (k, v) :: es else (k, w) :: set key v es

/-- The entries without that of a key. -/
def remove (key : String) (es : Entries) : Entries :=
  es.filter fun e => e.1 ≠ key

/-- Changes the table at the end of a way, beginning in a table of the form `form`.  Tables that are
missing on the way are made; of an array of tables the last one is meant. -/
def changeAt (made : Form) (change : Form → Entries → Option Entries) :
    (way : List String) → (form : Form) → Entries → Option Entries
  | [], form, es => change form es
  | k :: way, _, es =>
    match es.lookup k with
    | none =>
      (changeAt made change way made []).map fun inner => set k (.table made inner) es
    | some (.table form inner) =>
      if made.mayLeadThrough form then
        (changeAt made change way form inner).map fun inner => set k (.table form inner) es
      else none
    | some (.tables elements) =>
      match elements.getLast? with
      | none => none
      | some inner =>
        (changeAt made change way .header inner).map fun inner =>
          set k (.tables (elements.dropLast ++ [inner])) es
    | some _ => none

/-- **The entries with a value under a dotted key.**  The key must be new, and the table in which it
lies must have been made by dotted keys, unless it is this one. -/
def put (p : Path) (v : Value) : Entries → Option Entries :=
  changeAt .dotted
    (fun form es =>
      if form = .dotted ∧ (es.lookup p.key).isNone then some (es ++ [(p.key, v)]) else none)
    p.above .dotted

/-- **The entries with a table under a header.**  If there is such a table it must be implied; it
keeps its entries and moves to the end. -/
def openTable (p : Path) : Entries → Option Entries :=
  changeAt .implied
    (fun _ es =>
      match es.lookup p.key with
      | none => some (es ++ [(p.key, .table .header [])])
      | some (.table .implied inner) => some (remove p.key es ++ [(p.key, .table .header inner)])
      | some _ => none)
    p.above .header

/-- The entries with one more table in the array of tables under a header. -/
def openElement (p : Path) : Entries → Option Entries :=
  changeAt .implied
    (fun _ es =>
      match es.lookup p.key with
      | none => some (es ++ [(p.key, .tables [[]])])
      | some (.tables elements) => some (set p.key (.tables (elements ++ [[]])) es)
      | some _ => none)
    p.above .header

end Entries

/-- A document that is being read. -/
structure Document where
  entries : Entries := []
  /-- The way to the table of the last header. -/
  here : List String := []

namespace Document

/-- The document with an entry in the table of the last header. -/
def put (d : Document) (p : Path) (v : Value) : Option Document :=
  (Entries.changeAt .implied (fun _ es => es.put p v) d.here .header d.entries).map
    fun es => { d with entries := es }

/-- The document after the header of a table. -/
def openTable (d : Document) (p : Path) : Option Document :=
  (Entries.openTable p d.entries).map fun es => { entries := es, here := p.keys }

/-- The document after the header of an element of an array of tables. -/
def openElement (d : Document) (p : Path) : Option Document :=
  (Entries.openElement p d.entries).map fun es => { entries := es, here := p.keys }

end Document

end KnxIoT.Toml
