import RemoteEval.Namespace.Spec
import RemoteEval.Repl.Balance
import RemoteEval.Text.Split

/-!
Entries of the interactive loop. An entry is read line by line until its brackets are balanced.
It then switches the namespace, or is code, or is blank.
-/
namespace RemoteEval.Repl

open Text

def linesFrom (line : List Char) : List Char → List (List Char)
  | [] => if line.isEmpty then [] else [line.reverse]
  | c :: rest =>
    if c = '\n' then (c :: line).reverse :: linesFrom [] rest else linesFrom (c :: line) rest

def lines (text : String) : List (List Char) := linesFrom [] text.toList

def cutBreak (text : List Char) : List Char × List Char :=
  match dropEnd? ['\n'] text with
  | none => (text, [])
  | some rest =>
    match dropEnd? ['\r'] rest with
    | none => (rest, ['\n'])
    | some rest => (rest, ['\r', '\n'])

inductive LineRead where
  | entry (text : String)
  | more (text : List Char) (complaint : Option String)

/-- Read a line behind the text read of the entry before. A line break is kept inside an entry
whose brackets are open. -/
def readLine (before line : List Char) : LineRead :=
  let (text, lineEnd) := cutBreak (before ++ line)
  match balance (String.ofList text) with
  | .complete => .entry (String.ofList text)
  | .incomplete => .more (text ++ lineEnd) none
  | verdict => .more text verdict.complaint

inductive Input where
  | entry (text : String)
  | ended
  | failed (why : String)
  deriving DecidableEq, Repr

/-- The outcome of reading one entry: what was said meanwhile, what has come, and the lines after
it. -/
structure EntryRead where
  complaints : List String
  input : Input
  rest : List (Except String (List Char))

/-- Read one entry from lines, some of which perhaps cannot be read. -/
def readEntry (before : List Char) : List (Except String (List Char)) → EntryRead
  | [] => ⟨[], .ended, []⟩
  | .error why :: rest => ⟨[], .failed why, rest⟩
  | .ok line :: rest =>
    match readLine before line with
    | .entry text => ⟨[], .entry text, rest⟩
    | .more text complaint =>
      let read := readEntry text rest
      { read with complaints := complaint.toList ++ read.complaints }

/-- Every entry uses up a line at least. -/
theorem readEntry_rest_lt {before : List Char} {lines : List (Except String (List Char))}
    {entry : String} (h : (readEntry before lines).input = .entry entry) :
    (readEntry before lines).rest.length < lines.length := by
  induction lines generalizing before with
  | nil => simp [readEntry] at h
  | cons line rest ih =>
    cases line with
    | error why => simp [readEntry] at h
    | ok line =>
      rw [readEntry] at h ⊢
      split
      · simp
      · next text complaint hline =>
        rw [hline] at h
        have := @ih text h
        simp only [List.length_cons]
        omega

inductive Action where
  | nothing
  | switch (spec : Except Namespace.Malformed Namespace.Spec)
  | evaluate (code : String)

def namespaceWord : String := ":ns"

/-- What an entry asks for. Whatever starts with the word switches the namespace. -/
def action (entry : String) : Action :=
  let code := trim entry.toList
  if code.isEmpty then .nothing
  else
    match dropStart? namespaceWord.toList code with
    | some rest => .switch (Namespace.Spec.parse (String.ofList rest))
    | none => .evaluate (String.ofList code)

def prompt (spec : Namespace.Spec) : String :=
  match spec.resolve with
  | .ok path => path.dotted ++ "> "
  | .error _ => "?> "

end RemoteEval.Repl
