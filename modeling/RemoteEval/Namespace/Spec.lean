import RemoteEval.Namespace.Path

/-!
Namespaces as callers ask for them: none at all, one name, or a list of names. A spec may hold
anything; resolving it gives a path or says what is wrong. Three written forms are read: JSON,
dotted text, and none.
-/
namespace RemoteEval.Namespace

open Text

inductive Spec where
  | default
  | symbol (name : String)
  | list (names : List String)
  deriving DecidableEq, Repr

namespace Spec

/-- The path that a spec stands for. The default and the empty list stand for the root. -/
def resolve : Spec → Except Malformed Path
  | .default => .ok Path.root
  | .list [] => .ok Path.root
  | .symbol name => Path.ofSegments [name]
  | .list names => Path.ofSegments names

def nameOfJson : Json → Except Malformed String
  | .string text => .ok (text.getD "")
  | found => .error (.segment found)

def ofJson : Json → Except Malformed Spec
  | .null => .ok .default
  | .string text => .ok (.symbol (text.getD ""))
  | .array items => (items.mapM nameOfJson).map .list
  | found => .error (.value found)

def ofDotted (text : List Char) : Spec :=
  match trim text with
  | [] => .default
  | trimmedText =>
    match (trimmedText.splitOn '.').map fun piece => String.ofList (trim piece) with
    | [name] => .symbol name
    | names => .list names

/-- Read dotted text such as `Foo.Bar`; blank text stands for the root. -/
def parse (text : String) : Except Malformed Spec :=
  let spec := ofDotted text.toList
  spec.resolve.map fun _ => spec

end Spec

end RemoteEval.Namespace
