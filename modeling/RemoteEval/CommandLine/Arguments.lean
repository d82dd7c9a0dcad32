import RemoteEval.Namespace.Spec
import RemoteEval.Text.Split

/-!
The arguments of the command line. Options may stand before or after the subcommand, and after it
they count more. A value follows its option as the next argument or is attached to it. An
argument that has come in is judged only when the next one is looked at, so of two faults the
one met first on that way is reported.
-/
namespace RemoteEval.CommandLine

open Text

inductive Refusal where
  | missingArgument
  | unknownArgument
  | invalidSubcommand
  | badValue
  | missingValue
  | repeated
  | unexpectedValue
  | showVersion
  | showHelp
  deriving DecidableEq, Repr

inductive Subcommand where
  | eval
  | stage
  | load
  | activate
  | repl
  deriving DecidableEq, Repr

namespace Subcommand

def name : Subcommand → String
  | .eval => "eval"
  | .stage => "stage"
  | .load => "load"
  | .activate => "activate"
  | .repl => "repl"

def all : List Subcommand := [.eval, .stage, .load, .activate, .repl]

def ofName? (name : String) : Option Subcommand := all.find? fun s => s.name == name

def hasOperand : Subcommand → Bool
  | .repl => false
  | _ => true

/-- Whether the argument of a subcommand is a path, which is never empty. -/
def takesPath : Subcommand → Bool
  | .load => true
  | .activate => true
  | _ => false

end Subcommand

inductive Setting where
  | host
  | port
  | config
  | inNamespace
  deriving DecidableEq, Repr

inductive Switch where
  | notify
  | staged
  | help
  | version
  deriving DecidableEq, Repr

inductive Slot where
  | setting (s : Setting)
  | operand
  deriving DecidableEq, Repr

structure Level where
  command : Option Subcommand := none
  host : Option String := none
  port : Option Nat := none
  config : Option String := none
  spec : Option Namespace.Spec := none
  notify : Bool := false
  staged : Bool := false
  operand : Option String := none
  operandGiven : Bool := false
  /-- What is not judged yet, with its value if that has come in. -/
  pending : Option (Slot × Option String) := none

def longOption? (command : Option Subcommand) : String → Option (Setting ⊕ Switch)
  | "host" => some (.inl .host)
  | "port" => some (.inl .port)
  | "config" => some (.inl .config)
  | "namespace" => some (.inl .inNamespace)
  | "notify" => some (.inr .notify)
  | "help" => some (.inr .help)
  | "version" => if command.isNone then some (.inr .version) else none
  | "staged" => if command = some .eval then some (.inr .staged) else none
  | _ => none

def shortOption? (command : Option Subcommand) (letter : Char) : Option (Setting ⊕ Switch) :=
  if letter = 'n' then some (.inl .inNamespace)
  else if letter = 'h' then some (.inr .help)
  else if letter = 'V' && command.isNone then some (.inr .version)
  else none

def natural? (digits : List Char) : Option Nat :=
  if digits.isEmpty || !digits.all Char.isDigit then none
  else some (digits.foldl (fun value c => value * 10 + (c.toNat - '0'.toNat)) 0)

/-- The port that a value stands for: decimal digits, a sign before them allowed. -/
def port? (value : String) : Option Nat :=
  let magnitude? := match value.toList with
    | '+' :: digits => natural? digits
    | '-' :: digits => (natural? digits).filter (· == 0)
    | digits => natural? digits
  magnitude?.filter (· < 65536)

def Level.refusesEmpty (l : Level) : Slot → Bool
  | .setting .config => true
  | .setting _ => false
  | .operand => l.command.any Subcommand.takesPath

def Level.filled (l : Level) : Slot → Bool
  | .setting .host => l.host.isSome
  | .setting .port => l.port.isSome
  | .setting .config => l.config.isSome
  | .setting .inNamespace => l.spec.isSome
  | .operand => l.operand.isSome

def Level.fill (l : Level) (slot : Slot) (value : String) : Except Refusal Level :=
  if l.filled slot then .error .repeated
  else if l.refusesEmpty slot && value.isEmpty then .error .missingValue
  else
    match slot with
    | .setting .host => .ok { l with host := some value }
    | .setting .config => .ok { l with config := some value }
    | .operand => .ok { l with operand := some value }
    | .setting .port =>
      match port? value with
      | some port => .ok { l with port := some port }
      | none => .error .badValue
    | .setting .inNamespace =>
      match Namespace.Spec.parse value with
      | .ok spec => .ok { l with spec := some spec }
      | .error _ => .error .badValue

def Level.settle (l : Level) : Except Refusal Level :=
  match l.pending with
  | none => .ok l
  | some (_, none) => .error .missingValue
  | some (slot, some value) => { l with pending := none }.fill slot value

def Level.expect (l : Level) (setting : Setting) (attached : Option String) :
    Except Refusal Level := do
  let l ← l.settle
  match attached with
  | some value => l.fill (.setting setting) value
  | none => return { l with pending := some (.setting setting, none) }

def Level.turnOn (l : Level) (switch : Switch) : Except Refusal Level := do
  let l ← l.settle
  match switch with
  | .help => throw .showHelp
  | .version => throw .showVersion
  | .notify => if l.notify then throw .repeated else return { l with notify := true }
  | .staged => if l.staged then throw .repeated else return { l with staged := true }

def Level.readLong (l : Level) (name : String) (attached : Option String) :
    Except Refusal Level :=
  match longOption? l.command name with
  | none => .error .unknownArgument
  | some (.inl setting) => l.expect setting attached
  | some (.inr switch) => if attached.isSome then .error .unexpectedValue else l.turnOn switch

def attachedValue : List Char → Option String
  | [] => none
  | '=' :: value => some (String.ofList value)
  | value => some (String.ofList value)

/-- Read the letters of one argument. A letter whose option has a value takes the rest. -/
def Level.readShort (l : Level) : List Char → Except Refusal Level
  | [] => .ok l
  | letter :: rest =>
    match shortOption? l.command letter with
    | none => .error .unknownArgument
    | some (.inl setting) => l.expect setting (attachedValue rest)
    | some (.inr switch) => do
      let l ← l.turnOn switch
      l.readShort rest

inductive Word where
  | escape
  | long (name : String) (attached : Option String)
  | short (letters : List Char)
  | plain

/-- What an argument looks like. A single dash is plain. -/
def Word.of (argument : String) : Word :=
  match argument.toList with
  | ['-', '-'] => .escape
  | '-' :: '-' :: text =>
    match breakAt? ['='] text with
    | some (name, value) => .long (String.ofList name) (some (String.ofList value))
    | none => .long (String.ofList text) none
  | '-' :: c :: rest => .short (c :: rest)
  | _ => .plain

def Level.waiting (l : Level) : Bool :=
  match l.pending with
  | some (_, none) => true
  | _ => false

def Level.give (l : Level) (value : String) : Level :=
  { l with pending := l.pending.map fun (slot, _) => (slot, some value) }

def isSubcommandName (name : String) : Bool :=
  name == "help" || (Subcommand.ofName? name).isSome

def Level.readPlain (l : Level) (afterEscape : Bool) (argument : String) : Except Refusal Level :=
  match l.command with
  | none =>
    if afterEscape && isSubcommandName argument then .error .unknownArgument
    else .error .invalidSubcommand
  | some command =>
    if command.hasOperand && !l.operandGiven then do
      let l ← l.settle
      return { l with operandGiven := true, pending := some (.operand, some argument) }
    else .error .unknownArgument

/-- What help on the given names comes to: a subcommand has none of its own. -/
def helpOn : List String → Refusal
  | [] => .showHelp
  | [name] => if isSubcommandName name then .showHelp else .invalidSubcommand
  | _ => .invalidSubcommand

/-- Read arguments up to a subcommand. Answers that subcommand and the arguments after it. -/
def Level.read (l : Level) (afterEscape : Bool) :
    List String → Except Refusal (Level × Option (Subcommand × List String))
  | [] => .ok (l, none)
  | argument :: rest =>
    if afterEscape then do
      let l ← l.readPlain true argument
      l.read true rest
    else if l.command.isNone && !l.waiting && argument == "help" then .error (helpOn rest)
    else
      match if l.command.isNone && !l.waiting then Subcommand.ofName? argument else none with
      | some command => .ok (l, some (command, rest))
      | none =>
        match Word.of argument with
        | .escape => l.read true rest
        | .long name attached => do
          let l ← l.readLong name attached
          l.read false rest
        | .short letters => do
          let l ← l.readShort letters
          l.read false rest
        | .plain =>
          if l.waiting then (l.give argument).read false rest
          else do
            let l ← l.readPlain false argument
            l.read false rest

inductive Task where
  | eval (code : String) (staged : Bool)
  | stage (code : String)
  | load (path : String)
  | activate (path : String)
  | repl
  deriving DecidableEq, Repr

/-- What the arguments say. Without a task the interactive loop is run. -/
structure Invocation where
  host : Option String
  port : Option Nat
  configFile : Option String
  spec : Namespace.Spec
  notify : Bool
  task : Option Task
  deriving DecidableEq, Repr

def taskOf (command : Subcommand) (l : Level) : Except Refusal Task :=
  match command, l.operand with
  | .repl, _ => .ok .repl
  | _, none => .error .missingArgument
  | .eval, some code => .ok (.eval code l.staged)
  | .stage, some code => .ok (.stage code)
  | .load, some path => .ok (.load path)
  | .activate, some path => .ok (.activate path)

/-- What was given at two levels; the inner one counts more. -/
def invocation (outer inner : Level) (task : Option Task) : Invocation where
  host := inner.host <|> outer.host
  port := inner.port <|> outer.port
  configFile := inner.config <|> outer.config
  spec := (inner.spec <|> outer.spec).getD .default
  notify := inner.notify || outer.notify
  task := task

def parse (arguments : List String) : Except Refusal Invocation := do
  let (outer, found) ← Level.read {} false arguments
  match found with
  | none =>
    let outer ← outer.settle
    return invocation outer {} none
  | some (command, rest) =>
    let (inner, _) ← Level.read { command := some command } false rest
    let inner ← inner.settle
    let task ← taskOf command inner
    let outer ← outer.settle
    return invocation outer inner (some task)

end RemoteEval.CommandLine
