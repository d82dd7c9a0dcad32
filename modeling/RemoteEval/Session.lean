import RemoteEval.Bootstrap
import RemoteEval.Client.Run

/-!
A session with one interpreter: its settings, and its client once it is connected.
-/
namespace RemoteEval

structure Session where
  config : Config
  client : Option Client := none

namespace Session

def isActive (s : Session) : Bool := s.client.isSome

def bootstrap (s : Session) (terminal : Option Bootstrap.Schedule)
    (fault : Option Fault := none) : String × Except Error Unit :=
  Bootstrap.startServer s.config.command s.config.prompt s.config.bootstrapTimeout terminal fault

/-- The session with its client connected, if it has none yet. A refused connection leaves the
session as it is. -/
def connect (s : Session) (connection : Except Fault Connection) (stager : Stager)
    (scratch : Scratch) : Except Error Session :=
  match s.client with
  | some _ => .ok s
  | none =>
    match connection with
    | .ok connection => .ok { s with client := some (Client.new connection s.config stager scratch) }
    | .error fault => .error (.io fault)

def shutdown (s : Session) : Session × List Effect :=
  match s.client with
  | none => (s, [])
  | some client =>
    let (client, effects) := client.step .stop
    ({ s with client := some client }, effects)

def shown (s : Session) : String :=
  let client := match s.client with
    | none => "None"
    | some client => "Some(" ++ client.shown ++ ")"
  "Session \x7b address: " ++ Text.shown s.config.address ++ ", client: " ++ client ++ " \x7d"

end Session

end RemoteEval
