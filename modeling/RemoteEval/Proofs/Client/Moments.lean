import RemoteEval.Client.Run

/-!
The history of a run: which requests are registered, answered and finished, which responses are
dispatched, and when the loop ends, in order. A history is read off the states of the client
before each step. Each of its moments shows something to others.
-/
namespace RemoteEval

inductive Moment where
  | registered (request : Request) (inflight : Inflight) (written : List UInt8)
  | answered (id : RequestId) (result : Except Error Unit)
  | dispatched (response : Response)
  | finished (id : RequestId) (inflight : Inflight) (completion : Completion)
  | ended (ending : Ending)

def Response.verdict? : Response → Option (RequestId × Completion)
  | .success id => some (id, .success)
  | .failure id message stack => some (id, .failure (.eval message stack))
  | .unrecognized _ _ => none

/-- Whether an effect is about a request. The rest is logging, staging, highlighting the part
that is sent, and answers to queries. -/
def Effect.ofRequest : Effect → Bool
  | .staged _ _ => false
  | .editor (.flash _ _ _) => false
  | .listed _ _ => false
  | .log _ _ => false
  | _ => true

def Command.refusal : Command → Option Moment
  | .send request _ => some (.answered request.id (.error .connectionClosed))
  | .outstanding _ => none

namespace Client

def closing (c : Client) (ending : Ending) : List Moment :=
  .ended ending ::
    (c.table.entries.map fun entry => .finished entry.1 entry.2 (.failure .connectionClosed)) ++
    c.queue.filterMap Command.refusal

def submitting (c : Client) (a : Attempt) : List Moment :=
  match c.prepare a with
  | .error why => [.answered a.id (.error why)]
  | .ok _ => if c.closed then [.answered a.id (.error .connectionClosed)] else []

def registering (c : Client) (request : Request) (inflight : Inflight) : List Moment :=
  match c.table.register request.id inflight with
  | .error why => [.answered request.id (.error why)]
  | .ok _ =>
    match c.connection.send request with
    | (written, none, _) =>
      [.registered request inflight written, .answered request.id (.ok ())]
    | (written, some fault, _) =>
      [.registered request inflight written,
        .finished request.id inflight (.failure .connectionClosed),
        .answered request.id (.error .connectionClosed)] ++ c.closing (.io fault)

def taking (c : Client) : List Moment :=
  match c.queue with
  | [] => []
  | .send request inflight :: rest => { c with queue := rest }.registering request inflight
  | .outstanding _ :: _ => []

/-- The request that a response ends, which is in the table under the id that it carries. -/
def endedBy (c : Client) (response : Response) : Option (RequestId × Inflight × Completion) :=
  match response.verdict? with
  | none => none
  | some (id, completion) => (c.table.get? id).map fun inflight => (id, inflight, completion)

def dispatching (c : Client) (response : Response) : List Moment :=
  .dispatched response ::
    match c.endedBy response with
    | none => []
    | some (id, inflight, completion) => [.finished id inflight completion]

def receiving (c : Client) : List Moment :=
  if c.closed then []
  else
    match c.connection.receive.1 with
    | .response response => c.dispatching response
    | .ended => c.closing .remoteClosed
    | .failed fault => c.closing (.io fault)
    | .waiting => []

def happens (c : Client) : Step → List Moment
  | .submit attempt => c.submitting attempt
  | .take => c.taking
  | .receive => c.receiving
  | .stop => if c.closed then [] else c.closing .stopped
  | _ => []

def history (c : Client) : List Step → List Moment
  | [] => []
  | step :: steps => c.happens step ++ (c.step step).1.history steps

theorem history_append (c : Client) (before after : List Step) :
    c.history (before ++ after) = c.history before ++ (c.run before).1.history after := by
  induction before generalizing c with
  | nil => rfl
  | cons s rest ih =>
    rw [List.cons_append, history, ih, history, List.append_assoc]
    rfl

/-- How the failure of a request is shown in the environment; a lost connection is not. -/
def complaint (c : Client) (origin : String) : Completion → List Effect
  | .failure (.eval message stack) => [c.displayed origin (.eval message stack)]
  | _ => []

def ending (c : Client) (id : RequestId) (inflight : Inflight) (completion : Completion) :
    List Effect :=
  c.complaint inflight.origin completion ++
    (if inflight.callbacks.wants completion then [.callback id completion] else []) ++
    inflight.staged.toList.map (.release id) ++
    [.editor (.progress inflight.origin .stopped), .resolved id completion]

def shows (c : Client) : Moment → List Effect
  | .registered _ inflight written =>
    [.editor (.progress inflight.origin .started), .wrote written]
  | .answered id result => [.answered id result]
  | .dispatched _ => []
  | .finished id inflight completion => c.ending id inflight completion
  | .ended _ => []

end Client

end RemoteEval
