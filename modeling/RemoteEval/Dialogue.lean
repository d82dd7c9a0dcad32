import RemoteEval.Client.Run

/-!
One request after another. A request is sent, the remote end does something about it, and the
sender waits for the request to end.
-/
namespace RemoteEval

inductive Move where
  | say (bytes : List UInt8)
  | hangUp

/-- What a dialogue meets with: the ids and name stems that are drawn, and what the remote end
does about each request. -/
structure Counterpart where
  id : Nat → RequestId
  stem : Nat → String
  moves : Nat → List Move

inductive Outcome where
  | refused (why : Error)
  | completed (completion : Completion)
  | unanswered

def answerIn? (id : RequestId) (effects : List Effect) : Option (Except Error Unit) :=
  effects.findSome? fun
    | .answered other result => if other = id then some result else none
    | _ => none

def completionIn? (id : RequestId) (effects : List Effect) : Option Completion :=
  effects.findSome? fun
    | .resolved other completion => if other = id then some completion else none
    | _ => none

namespace Client

/-- The remote end makes a move, and the loop goes on until it has nothing to do. -/
def hear (c : Client) : Move → Client × List Effect
  | .say bytes => { c with connection := c.connection.deliver bytes }.settle
  | .hangUp => { c with connection := c.connection.dropRemote }.settle

def hearAll (c : Client) : List Move → Client × List Effect
  | [] => (c, [])
  | move :: moves => andThen (c.hear move) fun c => c.hearAll moves

def converse (c : Client) (counterpart : Counterpart) (n : Nat) (origin : String)
    (spec : Namespace.Spec) (body : Body) : Client × List Effect × Outcome :=
  let id := counterpart.id n
  let attempt : Attempt := ⟨id, counterpart.stem n, origin, spec, body, {}⟩
  let (c, sent) := andThen (c.submit attempt) settle
  match answerIn? id sent with
  | some (.error why) => (c, sent, .refused why)
  | _ =>
    let (c, heard) := c.hearAll (counterpart.moves n)
    match completionIn? id (sent ++ heard) with
    | some completion => (c, sent ++ heard, .completed completion)
    | none => (c, sent ++ heard, .unanswered)

end Client

end RemoteEval
