import KnxIoT.Bridge.Command
/-!
# Storms

Many callers at once.  They use a bridge or a registry in any order, so only what does not depend on
the order is looked at: how many succeeded, how the others failed, and the sorted texts of what came
of it.
-/

namespace KnxIoT.Bench.Storm

variable {σ : Type}

/-- The texts in order. -/
def sorted (texts : List String) : List String :=
  texts.mergeSort fun a b => decide (a ≤ b)

/-- The requests of so many callers, each to a device of its own. -/
def requests (callers each : Nat) : List Request :=
  (List.range callers).flatMap fun t =>
    (List.range each).map fun n =>
      let caller := toString t
      let number := toString n
      (Request.get ("dev-" ++ caller) ("/p/" ++ caller ++ "/" ++ number)).withTag
        (caller ++ ":" ++ number)

/-- What became of the requests when they were sent. -/
structure Tally where
  /-- How many got a token. -/
  accepted : Nat := 0
  /-- Why the others got none, the last one first. -/
  refused : List BridgeError := []
  deriving DecidableEq, Repr

/-- The tally with one more reply. -/
def Tally.add (t : Tally) : Reply → Tally
  | .token (.error e) => { t with refused := e :: t.refused }
  | _ => { t with accepted := t.accepted + 1 }

/-- Sends all requests. -/
def submitAll (t : Tally) (next : Tally → Bridge.Program σ) : List Request → Bridge.Program σ
  | [] => next t
  | r :: rest => .command (.submit r) fun reply => submitAll (t.add reply) next rest

/-- The responses that a trace shows. -/
def responses (trace : List (Bridge.Entry σ)) : List String :=
  sorted (trace.filterMap fun
    | .notified (.clientResponse identifier _ _ tag path payload) (some _) =>
      some (" ".intercalate [identifier, tag, path, payload])
    | _ => none)

/-- The identifiers that so many callers use, each going round the same few. -/
def identifiers (callers each distinct : Nat) : List String :=
  (List.range callers).flatMap fun _ =>
    (List.range each).map fun n => "dev-" ++ toString (n % distinct)

/-- Enters devices, counting those for which there was room. -/
def registerAll (address : String) (r : Registry) (names : List String) : Nat × Registry :=
  names.foldl
    (fun (n, r) name =>
      match r.upsert name { address := some address } with
      | .ok (_, r) => (n + 1, r)
      | .error _ => (n, r))
    (0, r)

end KnxIoT.Bench.Storm
