import RemoteEval.Client.Loop

/-!
Runs of a client. A run is any sequence of steps: senders call, the loop takes commands and
responses in any order, and the world outside writes, closes, fails, and deletes files.
-/
namespace RemoteEval

inductive Step where
  | submit (attempt : Attempt)
  | query (n : Nat)
  | take
  | receive
  | stop
  | arrive (piece : List UInt8)
  | closeOutput
  | dropRemote
  | failReads (fault : Fault)
  | failWrites (after : Nat)
  | failFlushes (fault : Fault)
  | erase (path : String)

namespace Client

def step (c : Client) : Step → Client × List Effect
  | .submit attempt => c.submit attempt
  | .query n => c.query n
  | .take => c.take
  | .receive => c.receive
  | .stop => if c.closed then (c, []) else c.close .stopped
  | .arrive piece => ({ c with connection := c.connection.arrive piece }, [])
  | .closeOutput => ({ c with connection := c.connection.closeOutput }, [])
  | .dropRemote => ({ c with connection := c.connection.dropRemote }, [])
  | .failReads fault => ({ c with connection := { c.connection with readFault := some fault } }, [])
  | .failWrites after => ({ c with connection := { c.connection with room := some after } }, [])
  | .failFlushes fault =>
    ({ c with connection := { c.connection with flushFault := some fault } }, [])
  | .erase path => ({ c with scratch := c.scratch.remove path }, [])

def run (c : Client) : List Step → Client × List Effect
  | [] => (c, [])
  | step :: steps => andThen (c.step step) fun c => c.run steps

def takeAll (c : Client) : Client × List Effect := c.run (c.queue.map fun _ => .take)

def receiveUpTo : Nat → Client → Client × List Effect
  | 0, c => (c, [])
  | n + 1, c =>
    if c.closed then (c, [])
    else
      match c.connection.receive.1 with
      | .waiting => c.receive
      | _ => andThen c.receive (receiveUpTo n)

/-- The loop goes on until it has nothing to do. Every response takes up a byte, so there are
no more of them than bytes have come in. -/
def settle (c : Client) : Client × List Effect :=
  andThen c.takeAll fun c => c.receiveUpTo (c.connection.pending + 1)

theorem andThen_fst (first : Client × List Effect) (second : Client → Client × List Effect) :
    (andThen first second).1 = (second first.1).1 := rfl

theorem andThen_snd (first : Client × List Effect) (second : Client → Client × List Effect) :
    (andThen first second).2 = first.2 ++ (second first.1).2 := rfl

theorem andThen_assoc (first : Client × List Effect)
    (second third : Client → Client × List Effect) :
    andThen (andThen first second) third = andThen first fun c => andThen (second c) third := by
  simp only [andThen, List.append_assoc]

theorem run_append (c : Client) (first second : List Step) :
    c.run (first ++ second) = andThen (c.run first) fun c => c.run second := by
  induction first generalizing c with
  | nil => simp [run, andThen]
  | cons s rest ih => simp [run, andThen, ih]

end Client

end RemoteEval
