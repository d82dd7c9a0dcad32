import RemoteEval.Json.Basic
import RemoteEval.Text.Blank
import RemoteEval.Text.Letter
import RemoteEval.Text.Numeral
import RemoteEval.Text.Shown
import RemoteEval.Text.Split

/-!
Namespace paths. A path names a module inside the interpreter, outermost segment first. It has
at least one segment and every segment is an identifier, so its written form `[:A, :B]` can be
cut at its commas and colons again.
-/
namespace RemoteEval.Namespace

open Text

inductive Malformed where
  | emptyPath
  | identifier (name : String)
  | literal (text : String)
  | segment (found : Json)
  | value (found : Json)

def Malformed.message : Malformed → String
  | .emptyPath => "namespace path is empty"
  | .identifier name => "invalid identifier - " ++ shown name
  | .literal text => "not a namespace literal - " ++ shown text
  | .segment found => "expected string segment, found " ++ found.text
  | .value found => "expected null, string, or array - found " ++ found.text

def startsIdentifier (c : Char) : Bool := isLetter c || c == '_'

def continuesIdentifier (c : Char) : Bool := isLetter c || isNumeral c || c == '_' || c == '!'

def isIdentifier (name : String) : Bool :=
  match name.toList with
  | [] => false
  | c :: rest => startsIdentifier c && rest.all continuesIdentifier

def rootName : String := "Main"

end Namespace

structure Path where
  segments : List String
  nonempty : segments ≠ []
  identifiers : ∀ s ∈ segments, Namespace.isIdentifier s = true
  deriving DecidableEq

namespace Path

open Namespace Text

def root : Path := ⟨[rootName], by decide, by decide +kernel⟩

/-- The path with the given segments. The first segment that is no identifier is reported. -/
def ofSegments (segments : List String) : Except Malformed Path :=
  if hempty : segments = [] then .error .emptyPath
  else
    match hbad : segments.find? fun s => !isIdentifier s with
    | some bad => .error (.identifier bad)
    | none => .ok ⟨segments, hempty, by simpa using hbad⟩

def encode (path : Path) : String :=
  "[" ++ ", ".intercalate (path.segments.map fun s => ":" ++ s) ++ "]"

def dotted (path : Path) : String := ".".intercalate path.segments

def segment? (item : List Char) : Option String :=
  (dropStart? [':'] (trim item)).map String.ofList

/-- Read the form that `encode` writes; blanks may stand around the brackets and the items. -/
def decode (text : String) : Except Malformed Path :=
  match (dropStart? ['['] (trim text.toList)).bind (dropEnd? [']']) with
  | none => .error (.literal text)
  | some inner =>
    match (inner.splitOn ',').mapM segment? with
    | none => .error (.literal text)
    | some segments => ofSegments segments

theorem ofSegments_segments (path : Path) : ofSegments path.segments = .ok path := by
  unfold ofSegments
  rw [dif_neg path.nonempty]
  split
  · next bad hbad =>
    have hmem := List.mem_of_find?_eq_some hbad
    have hnot := List.find?_some hbad
    simp [path.identifiers bad hmem] at hnot
  · rfl

end Path

end RemoteEval
