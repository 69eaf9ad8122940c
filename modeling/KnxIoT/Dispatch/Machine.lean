import KnxIoT.Dispatch.Handler
/-!
# Dispatch: the machine

Running programs and handlers against a system that replies to commands and gives notifications.
The machine is a stack of what is still to be done, and makes one small step at a time: so every
state that a run passes through, with all the calls that are still open in it, is a state of the
machine.

A command is carried out in one piece up to its reply or to the first notification; after the
handler of the notification has ended the system goes on with the rest.
-/

namespace KnxIoT.Dispatch

/-- What a system does in one piece. -/
inductive Outcome (α ρ : Type) where
  | reply (r : ρ)
  /-- The notification is to be delivered, and `rest` done after that. -/
  | notify (n : Notification) (rest : α)

/-- The result of one piece: the new state, what happened and what follows. -/
structure Piece (σ α ρ ε : Type) where
  state : σ
  /-- What happened, in order. -/
  events : List ε := []
  outcome : Outcome α ρ

/-- A system that carries out commands of type `κ` with replies of type `ρ`.  A command that has
given a notification goes on with a rest of type `α`; what happens is told by the type `ε`. -/
structure System (σ κ α ρ ε : Type) where
  /-- Begins a command, knowing which categories have a handler. -/
  start : (Category → Bool) → κ → σ → Piece σ α ρ ε
  /-- Goes on after a notification, knowing whether there was a handler for it. -/
  proceed : α → Bool → σ → Piece σ α ρ ε

/-- What stands on the stack. -/
inductive Frame (κ α ρ : Type) where
  | run (p : Program κ ρ)
  /-- The rest of a command, to be done when the handler of its notification has ended. -/
  | rest (a : α) (delivered : Bool)
  /-- A program that waits for the reply to a command. -/
  | await (c : κ) (next : ρ → Program κ ρ)

/-- What the trace of a run records. -/
inductive Entry (κ ρ ε : Type) where
  | called (c : κ)
  | returned (c : κ) (r : ρ)
  | happened (e : ε)
  /-- A notification was given, to the handler of that name if there was one. -/
  | notified (n : Notification) (handler : Option HandlerName)
  | installed (categories : List Category) (handler : HandlerName)
  | remarked (text : String)

/-- A run between two steps. -/
structure Machine (σ κ α ρ ε : Type) where
  state : σ
  table : HandlerTable (Installed κ ρ) := {}
  /-- How often each installed handler was called, by its number. -/
  calls : List Nat := []
  /-- What is still to be done, the next thing first. -/
  stack : List (Frame κ α ρ) := []
  trace : List (Entry κ ρ ε) := []

namespace Machine

variable {σ κ α ρ ε : Type}

/-- A machine about to run a program. -/
def load (m : Machine σ κ α ρ ε) (p : Program κ ρ) : Machine σ κ α ρ ε :=
  { m with stack := .run p :: m.stack }

/-- The machine with more on its trace. -/
def record (m : Machine σ κ α ρ ε) (es : List (Entry κ ρ ε)) : Machine σ κ α ρ ε :=
  { m with trace := m.trace ++ es }

/-- Hands a reply to the program that waits for it. -/
def answer (m : Machine σ κ α ρ ε) (r : ρ) : List (Frame κ α ρ) → Machine σ κ α ρ ε
  | .await c next :: below =>
    { m.record [.returned c r] with stack := .run (next r) :: below }
  | below => { m with stack := below }

/-- Delivers a notification: its handler is called, if there is one, before the rest is done. -/
def deliver (m : Machine σ κ α ρ ε) (n : Notification) (rest : α) (below : List (Frame κ α ρ)) :
    Machine σ κ α ρ ε :=
  match m.table.slot n.category with
  | some h =>
    let times := m.calls.getD h.number 0
    { m.record [.notified n (some h.name)] with
      calls := m.calls.set h.number (times + 1)
      stack := .run (h.handler.react times n) :: .rest rest true :: below }
  | none =>
    { m.record [.notified n none] with stack := .rest rest false :: below }

/-- Takes over the result of one piece. -/
def settle (m : Machine σ κ α ρ ε) (s : Piece σ α ρ ε) (below : List (Frame κ α ρ)) :
    Machine σ κ α ρ ε :=
  let m := { m.record (s.events.map .happened) with state := s.state }
  match s.outcome with
  | .reply r => m.answer r below
  | .notify n rest => m.deliver n rest below

/-- Installs a handler for several categories. -/
def install (m : Machine σ κ α ρ ε) (categories : List Category) (h : Handler κ ρ) :
    List (Option HandlerName) × Machine σ κ α ρ ε :=
  let i : Installed κ ρ := ⟨m.calls.length, h⟩
  let (old, table) := m.table.installAll i categories
  (old.map (·.map Installed.name),
    { m.record [.installed categories i.name] with table, calls := m.calls ++ [0] })

/-- **One step.** -/
def step (sys : System σ κ α ρ ε) (m : Machine σ κ α ρ ε) : Machine σ κ α ρ ε :=
  match m.stack with
  | [] => m
  | .run .done :: below => { m with stack := below }
  | .run (.remark text next) :: below =>
    { m.record [.remarked text] with stack := .run next :: below }
  | .run (.install categories h next) :: below =>
    let (old, m) := m.install categories h
    { m with stack := .run (next old) :: below }
  | .run (.command c next) :: below =>
    (m.record [.called c]).settle (sys.start m.table.isInstalled c m.state) (.await c next :: below)
  | .rest a delivered :: below => m.settle (sys.proceed a delivered m.state) below
  | .await _ _ :: below => { m with stack := below }

/-- The machine after `n` steps, or earlier if nothing is left to be done. -/
def run (sys : System σ κ α ρ ε) : Nat → Machine σ κ α ρ ε → Machine σ κ α ρ ε
  | 0, m => m
  | n + 1, m => if m.stack.isEmpty then m else run sys n (m.step sys)

end Machine

end KnxIoT.Dispatch
