import RemoteEval.Connection
import RemoteEval.Error

/-!
Starting the control server of a freshly launched interpreter. The start command is typed into
the interpreter's terminal; then the terminal's output is watched for the prompt, up to a bound.
The output may end before the prompt has occurred, or reading it may fail. Of the output only a
tail shorter than the prompt is kept, since an occurrence that is still to be completed starts in
it.
-/
namespace RemoteEval.Bootstrap

def occurs (prompt : List UInt8) : List UInt8 → Bool
  | [] => prompt.isEmpty
  | b :: rest => prompt.isPrefixOf (b :: rest) || occurs prompt rest

def readSize : Nat := 1024

/-- Look at a piece of output behind the tail kept of the output before it. Answers the new tail,
or none when the prompt has occurred. -/
def look (prompt kept piece : List UInt8) : Option (List UInt8) :=
  let seen := kept ++ piece
  if occurs prompt seen then none
  else some (seen.drop (seen.length - (prompt.length - 1)))

structure Arrival where
  time : Nat
  bytes : List UInt8

inductive Sight where
  | prompt (time : Nat) (rest : List Arrival)
  | nothing (kept : List UInt8)

def watchFrom (prompt kept : List UInt8) : List Arrival → Sight
  | [] => .nothing kept
  | piece :: rest =>
    match look prompt kept piece.bytes with
    | none => .prompt piece.time rest
    | some kept => watchFrom prompt kept rest

def watch (prompt : List UInt8) (reads : List Arrival) : Sight :=
  if prompt.isEmpty then .prompt 0 reads else watchFrom prompt [] reads

structure Schedule where
  arrivals : List Arrival
  ending : Option Nat

/-- The output just ends, or reading it fails with a fault. -/
def endError (fault : Option Fault) : Error := fault.elim .outputEnded .io

/-- What is read of a terminal's output: every piece when it arrives, a long one in several
reads. -/
def Schedule.reads (s : Schedule) : List Arrival :=
  s.arrivals.flatMap fun a => (pieces readSize a.bytes).map (Arrival.mk a.time)

structure Outcome where
  time : Nat
  result : Except Error Unit

/-- Wait for the prompt however long it takes. Nothing comes of that if the prompt does not occur
and the output neither ends nor fails. -/
def wait (prompt : List UInt8) (schedule : Schedule) (fault : Option Fault := none) :
    Option Outcome :=
  match watch prompt schedule.reads with
  | .prompt time _ => some ⟨time, .ok ()⟩
  | .nothing _ => schedule.ending.map fun time => ⟨time, .error (endError fault)⟩

/-- Whether something that happens at a time is noticed before the deadline. What is there from
the start always is. -/
def inTime (deadline time : Nat) : Bool := time = 0 || time < deadline

def await (prompt : List UInt8) (bound : Duration) (schedule : Schedule)
    (fault : Option Fault := none) : Outcome :=
  let deadline := bound.ceilMillis
  ((wait prompt schedule fault).filter fun outcome => inTime deadline outcome.time).getD
    ⟨deadline, .error (.promptTimeout bound)⟩

def typed (command : String) : String := command ++ "\n"

/-- Start a server: type the command, then wait for the prompt. A terminal that is gone cannot
be typed into. -/
def startServer (command prompt : String) (bound : Duration) (terminal : Option Schedule)
    (fault : Option Fault := none) : String × Except Error Unit :=
  match terminal with
  | none => ("", .error (.io .brokenPipe))
  | some schedule =>
    (typed command, (await (Text.Utf8.encode prompt.toList) bound schedule fault).result)

end RemoteEval.Bootstrap
