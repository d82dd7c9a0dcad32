import RemoteEval.Client.Basic

/-!
The client's loop. Every step answers the client after it and what others saw, in order. A
request is registered before it is written, and finished by one function only: callback, scratch
file, progress, ticket. However the loop ends, every registered request is finished and every
queued one refused before the client counts as closed.
-/
namespace RemoteEval.Client

def andThen (first : Client × List Effect) (second : Client → Client × List Effect) :
    Client × List Effect :=
  let (c, effects) := second first.1
  (c, first.2 ++ effects)

def prefersFile (c : Client) (text : String) : Bool :=
  text.toList.contains '\n' || decide (c.inlineLimit < text.utf8ByteSize)

def codeOrText (c : Client) : Body → String ⊕ String
  | .text text => .inl text
  | .staged text => .inr text
  | .auto text => if c.prefersFile text then .inr text else .inl text
  | .file path => .inl (loadInstruction path)
  | .project path => .inl (activation path)
  | .selection text _ _ => if c.prefersFile text then .inr text else .inl text

def spec (a : Attempt) : Namespace.Spec :=
  match a.body with
  | .project _ => .default
  | _ => a.namespaceAsked

/-- The request of an attempt, its scratch file, and the scratch directory with it. The namespace
is looked at before anything is written. -/
def prepare (c : Client) (a : Attempt) : Except Error (Request × Option String × Scratch) :=
  match (spec a).resolve with
  | .error why => .error (.malformedNamespace why)
  | .ok path =>
    match c.codeOrText a.body with
    | .inl code => .ok (⟨a.id, path, code⟩, none, c.scratch)
    | .inr text =>
      match c.scratch.stage c.stager a.stem text with
      | .error e => .error e
      | .ok (file, scratch) => .ok (⟨a.id, path, loadInstruction file⟩, some file, scratch)

/-- The highlight that goes with an attempt, whatever becomes of it. -/
def flash (a : Attempt) : List Effect :=
  match a.body with
  | .selection _ start stop => [.editor (.flash a.origin start stop)]
  | _ => []

def stagedFile (scratch : Scratch) : Option String → List Effect
  | none => []
  | some path => [.staged path ((scratch.files.lookup path).getD "")]

/-- A sender calls. What can be sent is queued; the rest is refused without a trace. -/
def submit (c : Client) (a : Attempt) : Client × List Effect :=
  match c.prepare a with
  | .error e => (c, flash a ++ [.answered a.id (.error e)])
  | .ok (request, staged, scratch) =>
    if c.closed then (c, flash a ++ [.answered a.id (.error .connectionClosed)])
    else
      ({ c with
          scratch
          queue := c.queue ++ [.send request ⟨a.origin, a.callbacks, staged⟩] },
        flash a ++ stagedFile scratch staged)

def query (c : Client) (n : Nat) : Client × List Effect :=
  if c.closed then (c, [.listed n (.error .connectionClosed)])
  else ({ c with queue := c.queue ++ [.outstanding n] }, [])

def releaseFile (c : Client) (id : RequestId) : Option String → Client × List Effect
  | none => (c, [])
  | some path =>
    match c.scratch.release path with
    | (none, scratch) => ({ c with scratch }, [.release id path])
    | (some fault, scratch) =>
      ({ c with scratch }, [.release id path, .log .warn (releaseWarning path fault)])

def finish (c : Client) (id : RequestId) (inflight : Inflight) (completion : Completion) :
    Client × List Effect :=
  let called := if inflight.callbacks.wants completion then [.callback id completion] else []
  let (c, released) := c.releaseFile id inflight.staged
  (c, called ++ released ++
    [.editor (.progress inflight.origin .stopped), .resolved id completion])

def finishAll (c : Client) : List (RequestId × Inflight) → Client × List Effect
  | [] => (c, [])
  | (id, inflight) :: rest =>
    andThen (c.finish id inflight (.failure .connectionClosed)) fun c => c.finishAll rest

/-- Refuse commands that the loop has not taken. Their scratch files go with them. -/
def refuseAll (c : Client) : List Command → Client × List Effect
  | [] => (c, [])
  | .send request inflight :: rest =>
    let scratch := inflight.staged.elim c.scratch c.scratch.remove
    andThen ({ c with scratch }, [.answered request.id (.error .connectionClosed)])
      fun c => c.refuseAll rest
  | .outstanding n :: rest =>
    andThen (c, [.listed n (.error .connectionClosed)]) fun c => c.refuseAll rest

def endingLog : Ending → List Effect
  | .io fault => [.log .error ("Client terminated with err - " ++ fault.message)]
  | _ => []

/-- The loop ends: every request is finished, every command refused. -/
def close (c : Client) (ending : Ending) : Client × List Effect :=
  let (entries, table) := c.table.drain
  andThen
    (andThen (finishAll { c with table } entries) fun c =>
      { c with queue := [], closed := true }.refuseAll c.queue)
    fun c => (c, endingLog ending)

/-- The loop takes a request from the queue: it is registered, then written. -/
def register (c : Client) (request : Request) (inflight : Inflight) : Client × List Effect :=
  match c.table.register request.id inflight with
  | .error e =>
    let scratch := inflight.staged.elim c.scratch c.scratch.remove
    ({ c with scratch }, [.log .error ("Refusing to send request - " ++ e.message),
      .answered request.id (.error e)])
  | .ok table =>
    let (written, fault, connection) := c.connection.send request
    let started := [.editor (.progress inflight.origin .started), .wrote written]
    match fault with
    | none => ({ c with table, connection }, started ++ [.answered request.id (.ok ())])
    | some fault =>
      andThen ({ c with connection }, started) fun c =>
        andThen (c.finish request.id inflight (.failure .connectionClosed)) fun c =>
          andThen (c, [.answered request.id (.error .connectionClosed)]) fun c =>
            c.close (.io fault)

def take (c : Client) : Client × List Effect :=
  match c.queue with
  | [] => (c, [])
  | .send request inflight :: rest => { c with queue := rest }.register request inflight
  | .outstanding n :: rest => ({ c with queue := rest }, [.listed n (.ok c.table.ids)])

def displayed (c : Client) (origin : String) (failure : Failure) : Effect :=
  match c.display with
  | .diagnostics => .editor (.diagnostic c.session failure.text)
  | .notification => .editor (.notice origin failure.message)

def dispatch (c : Client) : Response → Client × List Effect
  | .success id =>
    match c.table.complete id with
    | (some inflight, table) => { c with table }.finish id inflight .success
    | (none, _) => (c, [.log .debug ("ignoring success for unknown request " ++ id)])
  | .failure id message stack =>
    match c.table.complete id with
    | (some inflight, table) =>
      let failure := Failure.eval message stack
      andThen ({ c with table }, [c.displayed inflight.origin failure]) fun c =>
        c.finish id inflight (.failure failure)
    | (none, _) => (c, [.log .debug ("ignoring failure for unknown request " ++ id)])
  | .unrecognized raw reason =>
    (c, [.log .warn ((Error.badResponse reason).message ++ " - " ++ Text.shown raw)])

def receive (c : Client) : Client × List Effect :=
  if c.closed then (c, [])
  else
    let (receipt, connection) := c.connection.receive
    let c := { c with connection }
    match receipt with
    | .response response => c.dispatch response
    | .ended => c.close .remoteClosed
    | .failed fault => c.close (.io fault)
    | .waiting => (c, [])

end RemoteEval.Client
