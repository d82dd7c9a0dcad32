import RemoteEval.Duration

/-!
Settings for a session with one interpreter, their defaults, and what follows from them.
-/
namespace RemoteEval

inductive ErrorDisplay where
  | diagnostics
  | notification
  deriving DecidableEq, Repr

structure Config where
  host : String := "127.0.0.1"
  port : Nat := 10011
  inlineLimit : Nat := 1024
  scratchDir : Option String := none
  scratchSuffix : String := ".jl"
  errorDisplay : ErrorDisplay := .diagnostics
  bootstrapTimeoutMs : Nat := 5000
  prompt : String := "julia> "
  startCommand : String := "using ReplWire; ReplWire.start(\x7bport\x7d)"
  channelCapacity : Nat := 32
  deriving DecidableEq, Repr

structure Environment where
  home : String
  configHome : Option String := none
  temp : String := "/tmp"

def replaceAll (mark new : List Char) : Nat → List Char → List Char
  | 0, text => text
  | _ + 1, [] => []
  | n + 1, c :: text =>
    if mark.isPrefixOf (c :: text) then new ++ replaceAll mark new n ((c :: text).drop mark.length)
    else c :: replaceAll mark new n text

namespace Config

def address (config : Config) : String := config.host ++ ":" ++ toString config.port

def portMark : List Char := ['\x7b', 'p', 'o', 'r', 't', '\x7d']

def command (config : Config) : String :=
  let text := config.startCommand.toList
  String.ofList (replaceAll portMark (toString config.port).toList text.length text)

def bootstrapTimeout (config : Config) : Duration := Duration.ofMillis config.bootstrapTimeoutMs

/-- A path with a leading tilde, alone or before a slash, replaced by the home directory. -/
def expandHome (home path : String) : String :=
  match path.toList with
  | ['~'] => home
  | '~' :: '/' :: rest => home ++ "/" ++ String.ofList rest
  | _ => path

def scratchPath (config : Config) (env : Environment) : String :=
  match config.scratchDir with
  | some dir => expandHome env.home dir
  | none => env.temp

/-- The file that holds a user's settings: in the directory set for settings if that is an
absolute path, else in the hidden one of the home directory. -/
def userFile (env : Environment) : String :=
  let dir :=
    match env.configHome with
    | some dir => if dir.startsWith "/" then dir else env.home ++ "/.config"
    | none => env.home ++ "/.config"
  (if dir.endsWith "/" then dir else dir ++ "/") ++ "replwire/config.json"

end Config

end RemoteEval
