import KnxIoT.Decimal.Binary
/-!
# JSON: values

JSON values as they are built before printing.  The members of an object are kept in the order of
their keys, each key once; `Json.insert` keeps it so.
-/

namespace KnxIoT

/-- A JSON value.  A number is whole or a double. -/
inductive Json where
  | null
  | bool (b : Bool)
  | int (n : Int)
  | double (x : Decimal.Double)
  | str (s : String)
  | arr (items : List Json)
  | obj (members : List (String × Json))
  deriving Inhabited

/-- The members of an object with one more; a member with the same key is replaced.  Keys are
ordered by code points, which is the order of their UTF-8 bytes. -/
def Json.insert (key : String) (value : Json) : List (String × Json) → List (String × Json)
  | [] => [(key, value)]
  | (k, v) :: rest =>
    if key = k then (k, value) :: rest
    else if key < k then (key, value) :: (k, v) :: rest
    else (k, v) :: Json.insert key value rest

end KnxIoT
