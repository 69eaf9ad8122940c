import KnxIoT.Submission
/-!
# Errors

Why an operation failed, and the sentence that says so.
-/

namespace KnxIoT

/-- Why settings are not usable. -/
inductive SettingsError where
  /-- The file cannot be read as text. -/
  | unreadable
  /-- The text is no document of the right form. -/
  | malformed
  | invalid (reason : String)
  deriving DecidableEq, Repr

/-- Why an operation failed. -/
inductive BridgeError where
  | unknownDevice (identifier : String)
  | submissionRejected (what : Submission)
  | payloadTooLarge (size max : Nat)
  | encoding (reason : String)
  | registryFull (capacity : Nat)
  | tooManyPending (capacity : Nat)
  | alreadyRunning
  | notRunning
  /-- The bridge was stopped for good. -/
  | shutDown
  /-- The worker drives the engine. -/
  | workerDriven
  | engineInit (reason : String)
  | io (reason : String)
  | settings (cause : SettingsError)
  deriving DecidableEq, Repr

/-- The sentence for settings that are not usable. -/
def SettingsError.message : SettingsError → String
  | .unreadable => "I/O error"
  | .malformed => "TOML parse error"
  | .invalid reason => "Invalid configuration: " ++ reason

/-- The sentence for an error. -/
def BridgeError.message : BridgeError → String
  | .unknownDevice identifier => "Unknown device: " ++ identifier
  | .submissionRejected what => "Engine rejected " ++ what.name ++ " request"
  | .payloadTooLarge size max =>
    "Payload too large: " ++ toString size ++ " bytes (max " ++ toString max ++ ")"
  | .encoding reason => "Payload encoding failed: " ++ reason
  | .registryFull n => "Device registry full (" ++ toString n ++ " entries)"
  | .tooManyPending n => "Too many pending requests (" ++ toString n ++ ")"
  | .alreadyRunning => "Event loop already running"
  | .notRunning => "Event loop not running"
  | .shutDown => "Bridge has been shut down"
  | .workerDriven => "Engine is driven by the worker thread"
  | .engineInit reason => "Engine initialisation failed: " ++ reason
  | .io reason => "I/O error: " ++ reason
  | .settings cause => "Configuration error: " ++ cause.message

end KnxIoT
