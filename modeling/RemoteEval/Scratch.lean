import RemoteEval.Error
import RemoteEval.Literal
import RemoteEval.Text.Blank

/-!
Staging of code in scratch files. Code that is too long or awkward to stand in a request is
written to a fresh file, and the request holds an instruction that loads it. The scratch
directory is a list of files by path. Files go away when they are released, when their handle is
dropped, and whenever someone else deletes them.
-/
namespace RemoteEval

def below (dir name : String) : String :=
  if name.startsWith "/" then name
  else if dir.isEmpty || dir.endsWith "/" then dir ++ name
  else dir ++ "/" ++ name

structure Stager where
  dir : String := "/tmp"
  suffix : String := ".jl"
  deriving DecidableEq, Repr

def Stager.path (s : Stager) (stem : String) : String :=
  below s.dir ("replwire-" ++ stem ++ s.suffix)

def loadInstruction (path : String) : String := "include(" ++ Literal.quote path ++ ")"

def activation (path : String) : String := "import Pkg; Pkg.activate(" ++ Literal.quote path ++ ")"

def pathText (bytes : List UInt8) : String := String.ofList (Text.Utf8.lossy bytes)

/-- What a directory is like whatever files are in it: whether it exists, and what a file at a path
meets with when it is made and written, if that fails. -/
structure ScratchDir where
  usable : Bool := true
  fault? : String → Option Fault := fun _ => none

structure Scratch extends ScratchDir where
  files : List (String × String) := []

namespace Scratch

def refusal? (s : Scratch) (name : String) : Option Fault :=
  if name.toList.contains nul then some .nulInName
  else if !s.usable || name.toList.contains '/' then some .missing
  else if maxNameSize < name.utf8ByteSize then some .nameTooLong
  else none

def stageFault? (s : Scratch) (stager : Stager) (stem : String) : Option Fault :=
  (s.refusal? ("replwire-" ++ stem ++ stager.suffix)).or (s.fault? (stager.path stem))

/-- Write a text, trimmed, to a fresh file. Answers the path of the file. A file that has been made
and cannot be written is deleted again. -/
def stage (s : Scratch) (stager : Stager) (stem text : String) :
    Except Error (String × Scratch) :=
  let path := stager.path stem
  match s.stageFault? stager stem with
  | some fault => .error (.staging (.atPath fault path))
  | none => .ok (path, { s with files := s.files ++ [(path, Text.trimmed text)] })

def has (s : Scratch) (path : String) : Bool := s.files.any fun file => file.1 == path

def remove (s : Scratch) (path : String) : Scratch :=
  { s with files := s.files.filter fun file => file.1 != path }

def clear (s : Scratch) : Scratch := { s with files := [] }

def release (s : Scratch) (path : String) : Option Fault × Scratch :=
  if s.has path then (none, s.remove path) else (some (.atPath .missing path), s)

end Scratch

def releaseWarning (path : String) (fault : Fault) : String :=
  "Failed to delete staged file " ++ path ++ " - " ++ fault.message

end RemoteEval
