import RemoteEval.Completion
import RemoteEval.Connection
import RemoteEval.Editor
import RemoteEval.Scratch
import RemoteEval.Table

/-!
A client of an interpreter: its state, what senders ask of it, and what it does that others can
see. Sends go through a queue; one loop takes them out, writes their lines, and hands responses
to the requests they are for.
-/
namespace RemoteEval

inductive Body where
  | text (text : String)
  | staged (text : String)
  | auto (text : String)
  | file (path : String)
  | project (path : String)
  | selection (text : String) (start stop : Nat)

/-- One call to send. The id and the stem of a scratch file's name are drawn at random. -/
structure Attempt where
  id : RequestId
  stem : String
  origin : String
  namespaceAsked : Namespace.Spec
  body : Body
  callbacks : Callbacks := {}

structure Inflight where
  origin : String
  callbacks : Callbacks
  staged : Option String
  deriving DecidableEq, Repr

inductive Command where
  | send (request : Request) (inflight : Inflight)
  | outstanding (query : Nat)

inductive Effect where
  | staged (path text : String)
  | editor (call : EditorCall)
  | callback (id : RequestId) (completion : Completion)
  | release (id : RequestId) (path : String)
  | resolved (id : RequestId) (completion : Completion)
  | answered (id : RequestId) (result : Except Error Unit)
  | listed (query : Nat) (result : Except Error (List RequestId))
  | wrote (bytes : List UInt8)
  | log (level : Level) (text : String)

inductive Ending where
  | stopped
  | remoteClosed
  | io (fault : Fault)

structure Client where
  session : String
  display : ErrorDisplay
  inlineLimit : Nat
  stager : Stager
  connection : Connection
  table : Table Inflight := Table.empty
  queue : List Command := []
  scratch : Scratch := {}
  closed : Bool := false

namespace Client

def new (connection : Connection) (config : Config) (stager : Stager) (scratch : Scratch := {}) :
    Client where
  session := connection.peer
  display := config.errorDisplay
  inlineLimit := config.inlineLimit
  stager := stager
  connection := connection
  scratch := scratch

def shown (c : Client) : String :=
  "Client \x7b session: " ++ Text.shown c.session ++ ", closed: " ++ toString c.closed ++ " \x7d"

/-- The ids of the requests that wait for their response, while the loop runs. -/
def outstanding (c : Client) : Except Error (List RequestId) :=
  if c.closed then .error .connectionClosed else .ok c.table.ids

end Client

end RemoteEval
