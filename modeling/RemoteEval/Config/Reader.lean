import RemoteEval.Config.Basic
import RemoteEval.Json.Reader

/-!
Settings from JSON. An object gives settings by name: unknown names are skipped, a known name
must not stand twice, and what is not given keeps its default. An array gives them in the order
of the fields and may stop early.
-/
namespace RemoteEval.Config

inductive Malformed where
  | json (fault : Json.SyntaxFault)
  | notSettings
  | fieldName
  | repeated (field : String)
  | wrongValue (field : String)
  | tooMany
  deriving DecidableEq, Repr

def Malformed.message : Malformed → String
  | .json fault => fault.message
  | .notSettings => "settings are an object or an array"
  | .fieldName => "a field name is no text"
  | .repeated field => "the field " ++ field ++ " is given twice"
  | .wrongValue field => "the field " ++ field ++ " does not have a fitting value"
  | .tooMany => "the array has more items than there are settings"

inductive Field where
  | host
  | port
  | inlineLimit
  | scratchDir
  | scratchSuffix
  | errorDisplay
  | bootstrapTimeout
  | prompt
  | startCommand
  | channelCapacity
  deriving DecidableEq, Repr

namespace Field

def all : List Field := [.host, .port, .inlineLimit, .scratchDir, .scratchSuffix, .errorDisplay,
  .bootstrapTimeout, .prompt, .startCommand, .channelCapacity]

def name : Field → String
  | .host => "host"
  | .port => "port"
  | .inlineLimit => "inline_limit"
  | .scratchDir => "scratch_dir"
  | .scratchSuffix => "scratch_suffix"
  | .errorDisplay => "error_display"
  | .bootstrapTimeout => "bootstrap_timeout_ms"
  | .prompt => "prompt"
  | .startCommand => "start_command"
  | .channelCapacity => "channel_capacity"

def ofName? (name : String) : Option Field := all.find? fun field => field.name == name

end Field

def text? : Json → Option String
  | .string text => text
  | _ => none

def textOrNull? : Json → Option (Option String)
  | .null => some none
  | value => (text? value).map some

def natural? (bound : Nat) : Json → Option Nat
  | .number n => n.natural? bound
  | _ => none

def displayNamed? : String → Option ErrorDisplay
  | "diagnostics" => some .diagnostics
  | "notification" => some .notification
  | _ => none

/-- The display that a value gives: its name, or an object with null under its name. -/
def display? : Json → Option ErrorDisplay
  | .string text => text.bind displayNamed?
  | .object [(some name, .null)] => displayNamed? name
  | _ => none

def set? (config : Config) (value : Json) : Field → Option Config
  | .host => (text? value).map fun host => { config with host }
  | .port => (natural? UInt16.size value).map fun port => { config with port }
  | .inlineLimit => (natural? UInt64.size value).map fun inlineLimit => { config with inlineLimit }
  | .scratchDir => (textOrNull? value).map fun scratchDir => { config with scratchDir }
  | .scratchSuffix => (text? value).map fun scratchSuffix => { config with scratchSuffix }
  | .errorDisplay => (display? value).map fun errorDisplay => { config with errorDisplay }
  | .bootstrapTimeout =>
    (natural? UInt64.size value).map fun bootstrapTimeoutMs => { config with bootstrapTimeoutMs }
  | .prompt => (text? value).map fun prompt => { config with prompt }
  | .startCommand => (text? value).map fun startCommand => { config with startCommand }
  | .channelCapacity =>
    (natural? UInt64.size value).map fun channelCapacity => { config with channelCapacity }

def set (config : Config) (field : Field) (value : Json) : Except Malformed Config :=
  match config.set? value field with
  | some config => .ok config
  | none => .error (.wrongValue field.name)

/-- Replace settings by name; `seen` holds the names given before. -/
def setNamed (config : Config) (seen : List Field) :
    List (Option String × Json) → Except Malformed Config
  | [] => .ok config
  | (none, _) :: _ => .error .fieldName
  | (some name, value) :: rest =>
    match Field.ofName? name with
    | none => setNamed config seen rest
    | some field =>
      if field ∈ seen then .error (.repeated name)
      else
        match config.set field value with
        | .ok config => setNamed config (field :: seen) rest
        | .error fault => .error fault

def setInOrder (config : Config) : List Field → List Json → Except Malformed Config
  | _, [] => .ok config
  | [], _ :: _ => .error .tooMany
  | field :: fields, value :: values =>
    match config.set field value with
    | .ok config => setInOrder config fields values
    | .error fault => .error fault

def ofJson : Json → Except Malformed Config
  | .object fields => setNamed {} [] fields
  | .array items => setInOrder {} Field.all items
  | _ => .error .notSettings

def read (bytes : List UInt8) : Except Malformed Config :=
  match Json.parse bytes with
  | .ok value => ofJson value
  | .error fault => .error (.json fault)

end RemoteEval.Config
