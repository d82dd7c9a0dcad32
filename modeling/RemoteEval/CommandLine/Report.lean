import RemoteEval.Error

/-!
How the command line reports that it failed: a text, and below it the causes behind it.
-/
namespace RemoteEval.CommandLine

/-- A failure with the causes behind it, the nearest first. -/
structure Report where
  text : String
  causes : List String := []
  deriving DecidableEq, Repr

def setIn (margin text : String) : String :=
  ("\n" ++ margin).intercalate ((text.toList.splitOn '\n').map String.ofList)

def numbered (n : Nat) : List String → String
  | [] => ""
  | cause :: rest =>
    let number := toString n
    let margin := String.ofList (List.replicate (5 - number.length) ' ')
    "\n" ++ margin ++ number ++ ": " ++ setIn "       " cause ++ numbered (n + 1) rest

def causesText : List String → String
  | [] => ""
  | [cause] => "\n\nCaused by:\n    " ++ setIn "    " cause
  | causes => "\n\nCaused by:" ++ numbered 0 causes

def Report.printed (r : Report) : String :=
  "Error: " ++ r.text ++ causesText r.causes ++ "\n"

end RemoteEval.CommandLine

namespace RemoteEval

def Error.causes : Error → List String
  | .staging fault => [fault.message]
  | .io fault => [fault.message]
  | _ => []

def Error.report (e : Error) : CommandLine.Report := ⟨e.message, e.causes⟩

def Error.behind (e : Error) (text : String) : CommandLine.Report := ⟨text, e.message :: e.causes⟩

end RemoteEval
