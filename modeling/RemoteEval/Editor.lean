/-!
What the client asks of the environment that it works for, and how two simple environments
answer: one that keeps a log, and a terminal.
-/
namespace RemoteEval

inductive Progress where
  | started
  | stopped
  deriving DecidableEq, Repr

def Progress.name : Progress → String
  | .started => "Started"
  | .stopped => "Stopped"

/-- One call to the environment. A context names the buffer or view that a request comes from. -/
inductive EditorCall where
  | progress (context : String) (change : Progress)
  | diagnostic (session text : String)
  | notice (context message : String)
  | flash (context : String) (start stop : Nat)
  deriving DecidableEq, Repr

inductive Level where
  | debug
  | info
  | warn
  | error
  deriving DecidableEq, Repr

def Level.name : Level → String
  | .debug => "DEBUG"
  | .info => "INFO"
  | .warn => "WARN"
  | .error => "ERROR"

namespace EditorCall

def logged : EditorCall → Option (Level × String)
  | .progress context change => some (.debug, "progress " ++ context ++ " - " ++ change.name)
  | .diagnostic session text => some (.error, "[" ++ session ++ "] " ++ text)
  | .notice context message => some (.info, "[" ++ context ++ "] " ++ message)
  | .flash _ _ _ => none

def printed : EditorCall → Option String
  | .diagnostic session text => some ("--- " ++ session ++ " ---\n" ++ text ++ "\n")
  | .notice context message => some ("[" ++ context ++ "] " ++ message ++ "\n")
  | .progress _ _ => none
  | .flash _ _ _ => none

end EditorCall

end RemoteEval
