import RemoteEval.Error
import RemoteEval.Framing.Scan
import RemoteEval.Literal

/-!
Evaluation requests. A request travels as one line,
`(ns = [:Main], reqid = "a1b2c3d4", code = "1+1")`, in which the id and the code are literals,
so neither can break the line or end its part of it.
-/
namespace RemoteEval

def RequestId.width : Nat := 8

def RequestId.ofBits (bits : UInt32) : RequestId :=
  let digits := Nat.toDigits 16 bits.toNat
  String.ofList (List.replicate (RequestId.width - digits.length) '0' ++ digits)

structure Request where
  id : RequestId
  path : Path
  code : String
  deriving DecidableEq

namespace Request

open Text

def opening : String := "(ns = "

def idMark : String := ", reqid = "

def codeMark : String := ", code = "

def frame (r : Request) : String :=
  opening ++ r.path.encode ++ idMark ++ Literal.quote r.id ++ codeMark ++ Literal.quote r.code ++ ")"

def wire (r : Request) : List UInt8 := Utf8.encode r.frame.toList ++ [Framing.lineBreak]

def parts? (line : String) : Option (String × String × String) := do
  let rest ← dropStart? opening.toList (trimEnd line.toList)
  let (path, rest) ← breakAt? idMark.toList rest
  let (id, rest) ← breakAt? codeMark.toList rest
  let code ← dropEnd? [')'] rest
  return (String.ofList path, String.ofList id, String.ofList code)

/-- Read a line that holds a request; blanks may follow it. -/
def parse (line : String) : Except Error Request :=
  match parts? line with
  | none => .error (.malformedRequest line)
  | some (path, id, code) =>
    match Literal.unquote id with
    | none => .error (.malformedRequest line)
    | some id =>
      match Path.decode path with
      | .error why => .error (.malformedNamespace why)
      | .ok path =>
        match Literal.unquote code with
        | none => .error (.malformedRequest line)
        | some code => .ok ⟨id, path, code⟩

end Request

end RemoteEval
