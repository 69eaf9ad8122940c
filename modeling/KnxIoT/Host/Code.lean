import KnxIoT.Error
/-!
# Host programs: result codes

The numbers by which a host program learns how a call went: below 10 general outcomes, from 10 on
the life and the settings of a bridge, from 20 on requests.
-/

namespace KnxIoT.Host

/-- How a call went. -/
inductive Code where
  | ok
  | invalidArgument
  | notFound
  | operationFailed
  | resourceExhausted
  | bufferTooSmall
  | configError
  | alreadyRunning
  | notRunning
  | shutDown
  | engineInitFailed
  | workerDriven
  | loggerInstalled
  | submissionRejected
  | payloadTooLarge
  | encodingError
  | ioError
  deriving DecidableEq, Repr

namespace Code

/-- The number of a code. -/
def number : Code → Nat
  | ok => 0
  | invalidArgument => 1
  | notFound => 2
  | operationFailed => 3
  | resourceExhausted => 4
  | bufferTooSmall => 5
  | configError => 10
  | alreadyRunning => 11
  | notRunning => 12
  | shutDown => 13
  | engineInitFailed => 14
  | workerDriven => 15
  | loggerInstalled => 16
  | submissionRejected => 20
  | payloadTooLarge => 21
  | encodingError => 22
  | ioError => 23

/-- The code for an error. -/
def ofError : BridgeError → Code
  | .unknownDevice _ => notFound
  | .registryFull _ => resourceExhausted
  | .tooManyPending _ => resourceExhausted
  | .settings _ => configError
  | .alreadyRunning => alreadyRunning
  | .notRunning => notRunning
  | .shutDown => shutDown
  | .engineInit _ => engineInitFailed
  | .workerDriven => workerDriven
  | .submissionRejected _ => submissionRejected
  | .payloadTooLarge _ _ => payloadTooLarge
  | .encoding _ => encodingError
  | .io _ => ioError

/-- The code for a result. -/
def ofResult {α : Type} : Except BridgeError α → Code
  | .ok _ => ok
  | .error e => ofError e

end Code

end KnxIoT.Host
