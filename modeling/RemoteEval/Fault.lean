import RemoteEval.Text.Shown

/-!
What the operating system or a connection reports when it refuses something.
-/
namespace RemoteEval

def maxNameSize : Nat := 255

def maxPathSize : Nat := 4095

def nul : Char := Char.ofNat 0

inductive Fault where
  | missing
  | notDirectory
  | isDirectory
  | nameTooLong
  | nulInName
  | brokenPipe
  | connectionReset
  | connectionRefused
  | atPath (fault : Fault) (path : String)
  | other (text : String)
  deriving DecidableEq, Repr

def Fault.message : Fault → String
  | .missing => "No such file or directory (os error 2)"
  | .notDirectory => "Not a directory (os error 20)"
  | .isDirectory => "Is a directory (os error 21)"
  | .nameTooLong => "File name too long (os error 36)"
  | .nulInName => "file name contained an unexpected NUL byte"
  | .brokenPipe => "broken pipe"
  | .connectionReset => "connection reset"
  | .connectionRefused => "Connection refused (os error 111)"
  | .atPath fault path => fault.message ++ " at path " ++ Text.shown path
  | .other text => text

end RemoteEval
