import KnxIoT.Bridge.State
import KnxIoT.Host.Engine
import KnxIoT.Settings.File
/-!
# Host programs: making a bridge

A host makes a bridge from its engine and from a settings file that it may name.  Environment
variables override the file, and what the host says about threads overrides both.
-/

namespace KnxIoT.Host

/-- Who is to run the poll cycles, by the number that a host gives; 0 leaves it to the settings. -/
def threadingOfNumber? : Nat → Option Threading
  | 1 => some .worker
  | 2 => some .cooperative
  | _ => none

/-- The settings that a host means, given what the files hold. -/
def settingsFor (path : Option String) (contents : String → Option Bytes)
    (overrides : Settings.Overrides) (threading : Option Threading) :
    Except SettingsError Settings :=
  let stored : Except SettingsError Settings := match path with
    | none => .ok {}
    | some p => Settings.ofFile (contents p)
  stored.map fun s =>
    let s := s.override overrides
    { s with threading := threading.getD s.threading }

/-- **The bridge that a host makes,** if its table of operations is there and complete, the path is
good and the settings are usable. -/
def create? {σ : Type} (operations : Option Operations) (path : CText)
    (contents : String → Option Bytes) (overrides : Settings.Overrides)
    (threading : Option Threading) (engine : σ) : Option (Bridge σ) :=
  match operations, optionalText path with
  | some o, some path =>
    if o.isComplete then
      match settingsFor path contents overrides threading with
      | .ok settings => (Bridge.make settings engine).toOption
      | .error _ => none
    else none
  | _, _ => none

end KnxIoT.Host
