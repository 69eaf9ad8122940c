import KnxIoT.Host.Argument
import KnxIoT.Host.Code
/-!
# Host programs: the logger

A process has one logger, and whoever installs it first owns it.
-/

namespace KnxIoT.Host

/-- Who owns the logger. -/
inductive LogOwner where
  | unset
  | bridgeDefault
  | host
  | external
  deriving DecidableEq, Repr

/-- The number of an owner. -/
def LogOwner.number : LogOwner → Nat
  | .unset => 0
  | .bridgeDefault => 1
  | .host => 2
  | .external => 3

/-- Installs a logger for the host, with an optional filter, if there is none. -/
def initLogging (owner : LogOwner) (filter : CText) : Code × LogOwner :=
  match optionalText filter with
  | none => (.invalidArgument, owner)
  | some _ => if owner = .unset then (.ok, .host) else (.loggerInstalled, owner)

end KnxIoT.Host
