import KnxIoT.Settings
import KnxIoT.Text.Utf8
import KnxIoT.Toml.Reader
/-!
# Settings: files

Settings as they stand in a TOML file.  A key that is missing keeps its default, a key that means
nothing is passed over, and a value of the wrong kind makes the whole file unusable.
-/

namespace KnxIoT

namespace Settings.File

open Toml

variable {α : Type}

/-- The value of a key as `read?` understands it, or a default if the key is missing. -/
def field? (es : Entries) (key : String) (read? : Value → Option α) (default : α) : Option α :=
  match es.lookup key with
  | none => some default
  | some v => read? v

/-- A text. -/
def text? : Value → Option String
  | .str s => some s
  | _ => none

/-- A truth value. -/
def flag? : Value → Option Bool
  | .bool b => some b
  | _ => none

/-- A whole number from 0 to `max`. -/
def upTo? (max : Nat) : Value → Option Nat
  | .int n => if 0 ≤ n ∧ n ≤ max then some n.toNat else none
  | _ => none

/-- A size. -/
def size? : Value → Option Nat :=
  upTo? maxSize

/-- A multicast scope. -/
def scope? (v : Value) : Option UInt8 :=
  (upTo? 255 v).map UInt8.ofNat

/-- A word as `read?` understands it: a text, or a table whose only key is the word and holds
nothing. -/
def word? (read? : String → Option α) : Value → Option α
  | .str s => read? s
  | .table _ [(name, content)] => if content.isEmpty then read? name else none
  | _ => none

/-- The identity in a table. -/
def identityOf? (es : Entries) : Option Identity := do
  let d : Identity := {}
  let manufacturer ← field? es "manufacturer" text? d.manufacturer
  let name ← field? es "name" text? d.name
  let version ← field? es "version" text? d.version
  let serialNumber ← field? es "serial_number" text? d.serialNumber
  pure { manufacturer, name, version, serialNumber }

/-- The keys of an identity, in the order in which an array gives their values. -/
def identityKeys : List String :=
  ["manufacturer", "name", "version", "serial_number"]

/-- An identity: a table, or an array of its values.  A date has none of its keys and so keeps all
defaults. -/
def identity? : Value → Option Identity
  | .table _ es => identityOf? es
  | .array items => identityOf? (identityKeys.zip items)
  | .moment => some {}
  | _ => none

/-- The settings in a document. -/
def settingsOf? (es : Entries) : Option Settings := do
  let d : Settings := {}
  let identity ← field? es "identity" identity? d.identity
  let maxPayloadSize ← field? es "max_payload_size" size? d.maxPayloadSize
  let maxDevices ← field? es "max_devices" size? d.maxDevices
  let maxPendingRequests ← field? es "max_pending_requests" size? d.maxPendingRequests
  let discoveryQuery ← field? es "discovery_query" text? d.discoveryQuery
  let discoveryScope ← field? es "discovery_scope" scope? d.discoveryScope
  let discoveryMode ← field? es "discovery_mode" (word? DiscoveryMode.ofName?) d.discoveryMode
  let threading ← field? es "threading" (word? Threading.ofName?) d.threading
  let secureByDefault ← field? es "secure_by_default" flag? d.secureByDefault
  let synthesizeRejections ← field? es "synthesize_rejections" flag? d.synthesizeRejections
  pure
    { identity, maxPayloadSize, maxDevices, maxPendingRequests, discoveryQuery, discoveryScope,
      discoveryMode, threading, secureByDefault, synthesizeRejections }

end Settings.File

namespace Settings

/-- **The settings in a text,** which are checked. -/
def ofText (text : String) : Except SettingsError Settings :=
  match (Toml.read? text).bind File.settingsOf? with
  | none => .error .malformed
  | some s => s.validate

/-- The settings in a file with the given content, or in one that is not there. -/
def ofFile (content : Option Bytes) : Except SettingsError Settings :=
  match content.bind Utf8.decode? with
  | none => .error .unreadable
  | some text => ofText text

end Settings

end KnxIoT
