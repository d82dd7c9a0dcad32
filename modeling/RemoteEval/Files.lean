import RemoteEval.Fault

/-!
A tree of files as paths see it. Every entry stands under its absolute path, cut into names; a
directory is there if it is an entry or if something lies in it.
-/
namespace RemoteEval

/-- Files with their bytes, and directories without, by absolute path. -/
structure Files where
  entries : List (List String × Option (List UInt8))

def pathNames (path : String) : List String := (path.toList.splitOn '/').map String.ofList

def pathOfNames (names : List String) : String := "/" ++ "/".intercalate names

namespace Files

def bytes? (files : Files) (names : List String) : Option (List UInt8) :=
  files.entries.findSome? fun entry => if entry.1 = names then entry.2 else none

def isDirectory (files : Files) (names : List String) : Bool :=
  names.isEmpty || files.entries.any fun entry =>
    names.isPrefixOf entry.1 && (entry.1 != names || entry.2.isNone)

/-- Follow names from a place. A name is looked for in a directory only; nothing, or a dot, stays
in it, and two dots lead out of it. -/
def walk (files : Files) (place : List String) : List String → Except Fault (List String)
  | [] => .ok place
  | name :: rest =>
    if !files.isDirectory place then .error .notDirectory
    else if name = "" || name = "." then files.walk place rest
    else if maxNameSize < name.utf8ByteSize then .error .nameTooLong
    else if name = ".." then files.walk place.dropLast rest
    else
      let next := place ++ [name]
      if files.isDirectory next || (files.bytes? next).isSome then files.walk next rest
      else .error .missing

def locate (files : Files) (dir path : String) : Except Fault (List String) :=
  if path.toList.contains nul then .error .nulInName
  else if path.isEmpty then .error .missing
  else if maxPathSize < path.utf8ByteSize then .error .nameTooLong
  else if path.startsWith "/" then files.walk [] (pathNames path)
  else
    match files.walk [] (pathNames dir) with
    | .ok place => files.walk place (pathNames path)
    | .error fault => .error fault

def canonical (files : Files) (dir path : String) : Except Fault String :=
  (files.locate dir path).map pathOfNames

def read (files : Files) (dir path : String) : Except Fault (List UInt8) :=
  match files.locate dir path with
  | .error fault => .error fault
  | .ok names =>
    match files.bytes? names with
    | some bytes => .ok bytes
    | none => .error .isDirectory

def has (files : Files) (dir path : String) : Bool := (files.locate dir path).isOk

def count (files : Files) (dir : String) : Nat :=
  let names := (pathNames dir).filter fun name => !name.isEmpty
  files.entries.countP fun entry => names.isPrefixOf entry.1 && entry.2.isSome

end Files

end RemoteEval
