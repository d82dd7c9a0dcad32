import RemoteEval.CommandLine.Arguments
import RemoteEval.CommandLine.Report
import RemoteEval.Config.Load
import RemoteEval.Files
import RemoteEval.Repl.Loop

/-!
What the program does with its arguments: it puts the settings together, and over a connection
it runs one task or the interactive loop. The exit status of a task tells whether the request was
sent and succeeded.
-/
namespace RemoteEval.CommandLine

def versionText : String := "rwctl 0.1.0\n"

def context : String := "rwctl"

def Refusal.status : Refusal → Nat
  | .showHelp => 0
  | .showVersion => 0
  | _ => 2

namespace Invocation

def override (inv : Invocation) (config : Config) : Config :=
  { config with
    host := inv.host.getD config.host
    port := inv.port.getD config.port
    errorDisplay := if inv.notify then .notification else config.errorDisplay }

def settingsFile (inv : Invocation) (env : Environment) : String :=
  inv.configFile.getD (Config.userFile env)

/-- The settings, from what reading their file gave. A file that the arguments name has to be
there; otherwise `contents` may be none, and the defaults count. -/
def settings (inv : Invocation) (env : Environment)
    (contents : Option (Except Fault (List UInt8))) : Except Report Config :=
  let loaded : Except Error Config :=
    match contents with
    | none => .ok {}
    | some contents => Config.load (inv.settingsFile env) contents
  match inv.configFile, loaded with
  | _, .ok config => .ok (inv.override config)
  | some file, .error e => .error (e.behind ("Failed to load config " ++ file))
  | none, .error e => .error (e.behind "Failed to load config")

def settingsContents (inv : Invocation) (env : Environment) (files : Files) (dir : String) :
    Option (Except Fault (List UInt8)) :=
  let file := inv.settingsFile env
  if inv.configFile.isSome || files.has dir file then some (files.read dir file) else none

end Invocation

structure Inputs where
  stdin : Except Fault String
  canonical : String → Except Fault String

/-- The code of an argument; a dash stands for the standard input. -/
def codeOf (inputs : Inputs) (code : String) : Except Report String :=
  if code = "-" then
    match inputs.stdin with
    | .ok text => .ok text
    | .error fault => .error ⟨"Failed to read stdin", [fault.message]⟩
  else .ok code

def pathOf (inputs : Inputs) (path : String) : Except Report String :=
  match inputs.canonical path with
  | .ok path => .ok path
  | .error fault => .error ⟨"Failed to resolve " ++ path, [fault.message]⟩

def bodyOf (inputs : Inputs) : Task → Except Report Body
  | .eval code staged => (codeOf inputs code).map (if staged then .staged else .auto)
  | .stage code => (codeOf inputs code).map .staged
  | .load path => (pathOf inputs path).map .file
  | .activate path => (pathOf inputs path).map .project
  | .repl => .error ⟨"Unknown command repl", []⟩

/-- What the program has done when it ends; without a status it still waits for a response. -/
structure Finished where
  status : Option Nat
  effects : List Effect := []
  prints : List Print := []
  client : Client

def failed (report : Report) (c : Client) (effects : List Effect) : Finished where
  status := some 1
  effects := effects
  prints := effects.filterMap Effect.printed ++ [.err report.printed]
  client := c

def shutDown (c : Client) (effects : List Effect) : Client × List Effect :=
  Client.andThen (c, effects) fun c => c.step .stop

def runTask (inputs : Inputs) (counterpart : Counterpart) (spec : Namespace.Spec) (c : Client)
    (task : Task) : Finished :=
  match bodyOf inputs task with
  | .error report =>
    let (c, effects) := shutDown c []
    failed report c effects
  | .ok body =>
    let (c, effects, outcome) := c.converse counterpart 0 context spec body
    match outcome with
    | .refused why =>
      let (c, effects) := shutDown c effects
      failed why.report c effects
    | .completed .success =>
      let (c, effects) := shutDown c effects
      { status := some 0, effects, prints := effects.filterMap Effect.printed, client := c }
    | .completed (.failure why) =>
      let (c, effects) := shutDown c effects
      let text := "request " ++ counterpart.id 0 ++ " failed - " ++ why.message
      failed ⟨text, []⟩ c effects
    | .unanswered =>
      { status := none, effects, prints := effects.filterMap Effect.printed, client := c }

def historyFile (home : String) : String := home ++ "/.local/share/.rwctl_history"

def historyComplaint (file : String) (fault : Fault) : Print :=
  .err ("Failed to load " ++ file ++ " - " ++ fault.message ++ "\n")

def runLoop (inputs : Inputs) (counterpart : Counterpart) (spec : Namespace.Spec) (c : Client)
    (history : Option Print) : Finished :=
  let lines := match inputs.stdin with
    | .ok text => (Repl.lines text).map .ok
    | .error fault => [.error fault.message]
  let transcript := Repl.run counterpart c spec 0 lines
  let (c, effects) := shutDown transcript.client transcript.effects
  { status := some 0, effects, prints := history.toList ++ transcript.prints, client := c }

def Invocation.run (inv : Invocation) (inputs : Inputs) (counterpart : Counterpart) (c : Client)
    (history : Option Print) : Finished :=
  match inv.task with
  | none => runLoop inputs counterpart inv.spec c history
  | some .repl => runLoop inputs counterpart inv.spec c history
  | some task => runTask inputs counterpart inv.spec c task

def connectReport (config : Config) (fault : Fault) : Report :=
  (Error.io fault).behind ("Failed to connect to " ++ config.address)

end RemoteEval.CommandLine
