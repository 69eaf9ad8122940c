/-!
# Submissions

What an engine can be asked to send, and the word for each.
-/

namespace KnxIoT

/-- A request method. -/
inductive Method where
  | get
  | post
  | put
  | delete
  deriving DecidableEq, Repr

/-- All methods. -/
def Method.all : List Method := [.get, .post, .put, .delete]

/-- The name of a method. -/
def Method.name : Method → String
  | .get => "GET"
  | .post => "POST"
  | .put => "PUT"
  | .delete => "DELETE"

/-- What an engine can be asked to send. -/
inductive Submission where
  | request (method : Method)
  | discovery
  | handshake
  | groupMessage
  deriving DecidableEq, Repr

/-- All submissions. -/
def Submission.all : List Submission :=
  Method.all.map .request ++ [.discovery, .handshake, .groupMessage]

/-- The word for a submission. -/
def Submission.name : Submission → String
  | .request method => method.name
  | .discovery => "discovery"
  | .handshake => "handshake"
  | .groupMessage => "s-mode"

end KnxIoT
