import KnxIoT.Notification
/-!
# Dispatch: handlers and programs

A handler reacts to a notification with a program, which may issue commands and install handlers; so
a handler can call back into what notified it, to any depth.  A program is a finite tree: after each
command the reply decides how it goes on.  The types of commands and replies are left open.
-/

namespace KnxIoT

/-- Names an installed handler: its number among all installations, and its label. -/
structure HandlerName where
  /-- How many installations came before. -/
  number : Nat
  label : String
  deriving DecidableEq, Repr

mutual

/-- A receiver of notifications.  What it does may depend on how often it has been called before. -/
inductive Handler (κ ρ : Type) : Type where
  | mk (label : String) (react : Nat → Notification → Program κ ρ)

/-- What a caller or a handler does. -/
inductive Program (κ ρ : Type) : Type where
  | done
  | remark (text : String) (next : Program κ ρ)
  /-- Installs a handler for each category in turn and goes on with those it replaced. -/
  | install (categories : List Category) (handler : Handler κ ρ)
      (next : List (Option HandlerName) → Program κ ρ)
  /-- Issues a command and goes on with the reply. -/
  | command (c : κ) (next : ρ → Program κ ρ)

end

instance {κ ρ : Type} : Inhabited (Program κ ρ) := ⟨.done⟩

instance {κ ρ : Type} : Inhabited (Handler κ ρ) := ⟨.mk "" fun _ _ => .done⟩

/-- The label of a handler. -/
def Handler.label {κ ρ : Type} : Handler κ ρ → String
  | .mk label _ => label

/-- What a handler does when it is called, after `n` earlier calls. -/
def Handler.react {κ ρ : Type} : Handler κ ρ → Nat → Notification → Program κ ρ
  | .mk _ react => react

/-- The program that goes on with another one after its end. -/
def Program.andThen {κ ρ : Type} : Program κ ρ → Program κ ρ → Program κ ρ
  | .done, q => q
  | .remark t p, q => .remark t (p.andThen q)
  | .install cs h k, q => .install cs h fun r => (k r).andThen q
  | .command c k, q => .command c fun r => (k r).andThen q

/-- Installs a handler for each category as a handler of its own, so that they count their calls
separately. -/
def Program.installEach {κ ρ : Type} (h : Handler κ ρ)
    (next : List (Option HandlerName) → Program κ ρ) : List Category → Program κ ρ
  | [] => next []
  | c :: cs => .install [c] h fun old => installEach h (fun olds => next (old ++ olds)) cs

/-- The handler that reacts to so many notifications, and then to none. -/
def Handler.atMost {κ ρ : Type} (times : Nat) (label : String)
    (react : Notification → Program κ ρ) : Handler κ ρ :=
  .mk label fun n event => if n < times then react event else .done

/-- A handler in its slot. -/
structure Installed (κ ρ : Type) where
  /-- Its number among all installations. -/
  number : Nat
  handler : Handler κ ρ

/-- The name of an installed handler. -/
def Installed.name {κ ρ : Type} (i : Installed κ ρ) : HandlerName :=
  ⟨i.number, i.handler.label⟩

/-- One slot for each category. -/
structure HandlerTable (η : Type) where
  slot : Category → Option η := fun _ => none

namespace HandlerTable

variable {η : Type}

/-- Puts a handler into a slot; the result begins with what was there before. -/
def install (t : HandlerTable η) (c : Category) (h : η) : Option η × HandlerTable η :=
  (t.slot c, ⟨fun d => if d = c then some h else t.slot d⟩)

/-- Puts a handler into several slots in turn. -/
def installAll (t : HandlerTable η) (h : η) : List Category → List (Option η) × HandlerTable η
  | [] => ([], t)
  | c :: cs =>
    let (old, t) := t.install c h
    let (olds, t) := t.installAll h cs
    (old :: olds, t)

/-- Whether there is a handler for a category. -/
def isInstalled (t : HandlerTable η) (c : Category) : Bool :=
  (t.slot c).isSome

end HandlerTable

/-- The categories with a handler, described for a reader. -/
def describeInstalled (installed : Category → Bool) : String :=
  "CallbackTable \x7b installed: [" ++
    ", ".intercalate ((Category.all.filter installed).map fun c => "\"" ++ c.name ++ "\"") ++
    "] \x7d"

end KnxIoT
