import RemoteEval.CommandLine.Program
import Std.Async.DNS
import Std.Async.TCP

/-!
The program on a real terminal, a real network and a real disk. Every decision is taken by the
library; this module reads, writes and waits.
-/
namespace RemoteEval.Terminal

open Std.Async CommandLine

def faultOf : IO.Error → Fault
  | .noFileOrDirectory .. => .missing
  | .noSuchThing _ code text => if code = 2 then .missing else .other text
  | .inappropriateType _ code text =>
    if code = 21 then .isDirectory else if code = 20 then .notDirectory else .other text
  | .resourceVanished code text =>
    if code = 32 then .brokenPipe else if code = 104 then .connectionReset else .other text
  | .userError text => .other text
  | e => .other (toString e)

def attempt (action : IO α) : IO (Except Fault α) := do
  match ← action.toBaseIO with
  | .ok x => return .ok x
  | .error e => return .error (faultOf e)

def say (print : Print) : IO Unit :=
  match print with
  | .out text => do
    (← IO.getStdout).putStr text
    (← IO.getStdout).flush
  | .err text => IO.eprint text

def drawStem : IO String := do
  let letters := "abcdefghijklmnopqrstuvwxyzABCDEFGHIJKLMNOPQRSTUVWXYZ0123456789".toList
  let bytes ← IO.getRandomBytes 6
  return String.ofList (bytes.toList.map fun b => letters.getD (b.toNat % letters.length) 'x')

def drawId : IO RequestId := do
  let bytes ← IO.getRandomBytes 4
  return RequestId.ofBits (bytes.toList.foldl (fun bits b => bits * 256 + b.toUInt32) 0)

/-- A client with its socket. The next piece is always being read. -/
structure Live where
  client : IO.Ref Client
  socket : TCP.Socket.Client
  reading : IO.Ref (Task (Except IO.Error (Option ByteArray)))

namespace Live

def read (socket : TCP.Socket.Client) : IO (Task (Except IO.Error (Option ByteArray))) :=
  IO.asTask (socket.recv? 8192).block

def store (before after : Scratch) : IO Unit := do
  for (path, _) in before.files do
    if !after.has path then discard (attempt (IO.FS.removeFile path))

def act (live : Live) (f : Client → Client × List Effect) : IO (List Effect) := do
  let before ← live.client.get
  let (after, effects) := f before
  live.client.set after
  store before.scratch after.scratch
  for effect in effects do
    match effect with
    | .log .error text => IO.eprintln ("ERROR " ++ text)
    | effect => if let some print := effect.printed then say print
  return effects

def takeIn (live : Live) (read : Except IO.Error (Option ByteArray)) : IO (List Effect) := do
  match read with
  | .ok (some bytes) =>
    live.reading.set (← Live.read live.socket)
    live.act fun c => Client.andThen (c.step (.arrive bytes.toList)) Client.settle
  | .ok none => live.act fun c => Client.andThen (c.step .closeOutput) Client.settle
  | .error e =>
    live.act fun c => Client.andThen (c.step (.failReads (faultOf e))) Client.settle

partial def catchUp (live : Live) : IO Unit := do
  let reading ← live.reading.get
  if !(← live.client.get).closed && (← IO.hasFinished reading) then
    discard (live.takeIn (← IO.wait reading))
    live.catchUp

partial def writeQueued (live : Live) : IO (List Effect) := do
  match (← live.client.get).queue with
  | [] => return []
  | command :: _ =>
    if let .send request _ := command then
      match ← attempt (live.socket.sendAll #[⟨request.wire.toArray⟩]).block with
      | .ok () => pure ()
      | .error _ => discard (live.act fun c => c.step (.failWrites 0))
    let effects ← live.act fun c => c.step .take
    return effects ++ (← live.writeQueued)

partial def await (live : Live) (id : RequestId) (seen : List Effect) : IO Completion := do
  match completionIn? id seen with
  | some completion => return completion
  | none => live.await id (← live.takeIn (← IO.wait (← live.reading.get)))

def writeStaged (effects : List Effect) : IO (Except Fault Unit) := do
  for effect in effects do
    if let .staged path text := effect then
      if let .error fault ← attempt (IO.FS.writeFile path text) then
        return .error (.atPath fault path)
  return .ok ()

def converse (live : Live) (origin : String) (spec : Namespace.Spec) (body : Body) :
    IO (Except Error (RequestId × Completion)) := do
  live.catchUp
  let id ← drawId
  let attempt : Attempt := ⟨id, ← drawStem, origin, spec, body, {}⟩
  let before ← live.client.get
  let submitted ← live.act fun c => c.submit attempt
  if let .error fault ← writeStaged submitted then
    live.client.set before
    return .error (.staging fault)
  let effects := submitted ++ (← live.writeQueued)
  match answerIn? id effects with
  | some (.error why) => return .error why
  | _ => return .ok (id, ← live.await id effects)

end Live

def connect (config : Config) : IO TCP.Socket.Client := do
  let addresses ← (DNS.getAddrInfo config.host (toString config.port)).block
  let port := UInt16.ofNat config.port
  let mut failure := IO.userError ("failed to look up " ++ config.host)
  for address in addresses do
    let socket ← TCP.Socket.Client.mk
    let target : Std.Net.SocketAddress := match address with
      | .v4 addr => .v4 ⟨addr, port⟩
      | .v6 addr => .v6 ⟨addr, port⟩
    match ← ((socket.connect target).block : IO Unit).toBaseIO with
    | .ok () =>
      socket.noDelay
      return socket
    | .error e => failure := e
  throw failure

def complain (report : Report) : IO UInt32 := do
  IO.eprint report.printed
  return 1

def bodyOf (task : Task) : IO (Except Report Body) := do
  let stdin ← match task with
    | .eval "-" _ | .stage "-" => attempt (do (← IO.getStdin).readToEnd)
    | _ => pure (.ok "")
  let canonical ← match task with
    | .load path | .activate path =>
      attempt (do return toString (← IO.FS.realPath path))
    | _ => pure (.ok "")
  return CommandLine.bodyOf ⟨stdin, fun _ => canonical⟩ task

def runTask (live : Live) (spec : Namespace.Spec) (task : Task) : IO (Option Report) := do
  match ← bodyOf task with
  | .error report => return some report
  | .ok body =>
    match ← live.converse CommandLine.context spec body with
    | .error why => return some why.report
    | .ok (_, .success) => return none
    | .ok (id, .failure why) =>
      return some ⟨"request " ++ id ++ " failed - " ++ why.message, []⟩

partial def readEntry (before : List Char) : IO Repl.Input := do
  match ← attempt (do (← IO.getStdin).getLine) with
  | .error fault => return .failed fault.message
  | .ok line =>
    if line.isEmpty then return .ended
    match Repl.readLine before line.toList with
    | .entry text => return .entry text
    | .more text complaint =>
      if let some complaint := complaint then IO.eprint complaint
      readEntry text

partial def runLoop (live : Live) (spec : Namespace.Spec) : IO Unit := do
  say (.out (Repl.prompt spec))
  match ← readEntry [] with
  | .ended => return
  | .failed why => say (.out (Repl.readFailure why))
  | .entry entry =>
    match Repl.action entry with
    | .nothing => runLoop live spec
    | .switch (.ok spec) => runLoop live spec
    | .switch (.error why) =>
      IO.eprintln (Error.malformedNamespace why).message
      runLoop live spec
    | .evaluate code =>
      match ← live.converse Repl.context spec (.auto code) with
      | .error why => IO.eprintln why.message
      | .ok (_, .success) =>
        say (.out "ok\n")
        runLoop live spec
      | .ok (_, .failure _) => runLoop live spec

def loadHistory (home : String) : IO Unit := do
  let file := historyFile home
  if let .error fault ← attempt (IO.FS.readFile file) then say (historyComplaint file fault)

def runConnected (inv : Invocation) (env : Environment) (live : Live) : IO UInt32 := do
  let report ← match inv.task with
    | some .repl | none =>
      loadHistory env.home
      runLoop live inv.spec
      pure none
    | some task => runTask live inv.spec task
  discard (live.act fun c => c.step .stop)
  discard (attempt (live.socket.shutdown).block)
  discard (attempt live.socket.native.cancelRecv)
  match report with
  | none => return 0
  | some report => complain report

def usage : String := "\n".intercalate [
  "Usage: rwctl [OPTIONS] [COMMAND]", "",
  "Commands:",
  "  eval      Evaluate CODE, or stdin if CODE is -",
  "  stage     Evaluate CODE through a staged scratch file",
  "  load      Load and evaluate FILE",
  "  activate  Activate package environment at DIR",
  "  repl      Run an interactive REPL (default)",
  "  help      Print this message or the help of the given subcommand(s)", "",
  "Options:",
  "      --host <HOST>            Host of interpreter control server",
  "      --port <PORT>            Port of interpreter control server",
  "      --config <FILE>          Path to config file",
  "  -n, --namespace <NAMESPACE>  Dotted namespace to evaluate in, e.g. Foo.Bar",
  "      --notify                 Report failures as short notifications",
  "  -h, --help                   Print help",
  "  -V, --version                Print version", ""]

def refuse (refusal : Refusal) : IO UInt32 := do
  match refusal with
  | .showVersion => IO.print versionText
  | .showHelp => IO.print usage
  | _ => IO.eprint usage
  return UInt32.ofNat refusal.status

def run (inv : Invocation) : IO UInt32 := do
  let env : Environment := {
    home := (← IO.getEnv "HOME").getD "/"
    configHome := ← IO.getEnv "XDG_CONFIG_HOME"
    temp := (← IO.getEnv "TMPDIR").getD "/tmp" }
  let contents ← attempt (do return (← IO.FS.readBinFile (inv.settingsFile env)).toList)
  let contents := match inv.configFile, contents with
    | none, .error .missing => none
    | _, contents => some contents
  match inv.settings env contents with
  | .error report => complain report
  | .ok config =>
    match ← attempt (connect config) with
    | .error fault => complain (connectReport config fault)
    | .ok socket =>
      let dir := below (toString (← IO.currentDir)) (config.scratchPath env)
      let usable ← attempt (do return ← (← IO.FS.realPath dir).isDir)
      let client := Client.new { peer := config.address } config ⟨dir, config.scratchSuffix⟩
        { usable := usable.toOption.getD false }
      let live : Live := ⟨← IO.mkRef client, socket, ← IO.mkRef (← Live.read socket)⟩
      runConnected inv env live

end RemoteEval.Terminal

def main (args : List String) : IO UInt32 :=
  match RemoteEval.CommandLine.parse args with
  | .ok inv => RemoteEval.Terminal.run inv
  | .error refusal => RemoteEval.Terminal.refuse refusal
