/-!
How a request ends.
-/
namespace RemoteEval

inductive Failure where
  | eval (message : String) (stack : List String)
  | connectionClosed
  deriving DecidableEq, Repr

namespace Failure

def message : Failure → String
  | .eval message _ => message
  | .connectionClosed => "Connection closed"

def stack : Failure → List String
  | .eval _ stack => stack
  | .connectionClosed => []

def text (f : Failure) : String := "\n".intercalate (f.message :: f.stack)

end Failure

inductive Completion where
  | success
  | failure (why : Failure)
  deriving DecidableEq, Repr

structure Callbacks where
  onSuccess : Bool := false
  onFailure : Bool := false
  deriving DecidableEq, Repr

def Callbacks.wants (c : Callbacks) : Completion → Bool
  | .success => c.onSuccess
  | .failure _ => c.onFailure

end RemoteEval
