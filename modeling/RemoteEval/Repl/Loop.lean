import RemoteEval.Dialogue
import RemoteEval.Repl.Entry

/-!
The interactive loop. It keeps a namespace and reads entry after entry; an entry with code is
sent, and the next one is read when it has ended. The loop ends with the input, when that cannot be
read, or when a request cannot be sent.
-/
namespace RemoteEval

inductive Print where
  | out (text : String)
  | err (text : String)
  deriving DecidableEq, Repr

def Effect.printed : Effect → Option Print
  | .editor call => call.printed.map .err
  | _ => none

def outText (prints : List Print) : String :=
  String.join (prints.filterMap fun | .out text => some text | .err _ => none)

def errText (prints : List Print) : String :=
  String.join (prints.filterMap fun | .err text => some text | .out _ => none)

namespace Repl

def context : String := "repl"

structure Transcript where
  client : Client
  effects : List Effect := []
  prints : List Print := []

def Transcript.after (t : Transcript) (effects : List Effect) (prints : List Print) : Transcript :=
  { t with effects := effects ++ t.effects, prints := prints ++ t.prints }

def readFailure (why : String) : String := "Error: " ++ why ++ "\n"

/-- Do what an entry asks for and go on with `next`. So much is printed for the entry before; `n`
requests have been sent before. -/
def enter (counterpart : Counterpart) (c : Client) (spec : Namespace.Spec) (n : Nat)
    (entry : String) (shown : List Print) (next : Client → Namespace.Spec → Nat → Transcript) :
    Transcript :=
  match action entry with
  | .nothing => (next c spec n).after [] shown
  | .switch (.ok spec) => (next c spec n).after [] shown
  | .switch (.error why) =>
    let complaint := .err ((Error.malformedNamespace why).message ++ "\n")
    (next c spec n).after [] (shown ++ [complaint])
  | .evaluate code =>
    let (c, effects, outcome) := c.converse counterpart n context spec (.auto code)
    let prints := shown ++ effects.filterMap Effect.printed
    match outcome with
    | .refused why => { client := c, effects, prints := prints ++ [.err (why.message ++ "\n")] }
    | .completed .success => (next c spec (n + 1)).after effects (prints ++ [.out "ok\n"])
    | .completed (.failure _) => (next c spec (n + 1)).after effects prints
    | .unanswered => { client := c, effects, prints }

/-- Run the loop on lines of input; `n` requests have been sent before. -/
def run (counterpart : Counterpart) (c : Client) (spec : Namespace.Spec) (n : Nat)
    (lines : List (Except String (List Char))) : Transcript :=
  let read := readEntry [] lines
  let shown := .out (prompt spec) :: read.complaints.map .err
  match _hentry : read.input with
  | .ended => { client := c, prints := shown }
  | .failed why => { client := c, prints := shown ++ [.out (readFailure why)] }
  | .entry entry =>
    enter counterpart c spec n entry shown fun c spec n => run counterpart c spec n read.rest
termination_by lines.length
decreasing_by exact readEntry_rest_lt _hentry

end Repl

end RemoteEval
