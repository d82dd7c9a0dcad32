/-!
Whether the brackets of a text are balanced. Brackets inside strings and comments do not count. A
text that is not balanced yet may become so when it goes on; one with a closing bracket that
closes nothing, or the wrong bracket, never does.
-/
namespace RemoteEval.Repl

inductive Balance where
  | complete
  | incomplete
  | unpaired (close : Char)
  | unclosed (opening : Char)
  deriving DecidableEq, Repr

namespace Balance

inductive Inside where
  | code
  | string
  | escape
  | comment
  deriving DecidableEq, Repr

def isOpening (c : Char) : Bool := c == '(' || c == '[' || c == '\x7b'

def opening? (c : Char) : Option Char :=
  if c = ')' then some '(' else if c = ']' then some '[' else if c = '\x7d' then some '\x7b' else none

def scan : Inside → List Char → List Char → Balance
  | .code, [], [] => .complete
  | .comment, [], [] => .complete
  | _, _, [] => .incomplete
  | .string, opened, c :: rest =>
    if c = '\\' then scan .escape opened rest
    else if c = '"' then scan .code opened rest
    else scan .string opened rest
  | .escape, opened, _ :: rest => scan .string opened rest
  | .comment, opened, c :: rest =>
    if c = '\n' then scan .code opened rest else scan .comment opened rest
  | .code, opened, c :: rest =>
    if c = '"' then scan .string opened rest
    else if c = '#' then scan .comment opened rest
    else if isOpening c then scan .code (c :: opened) rest
    else
      match opening? c with
      | none => scan .code opened rest
      | some wanted =>
        match opened with
        | [] => .unpaired c
        | innermost :: outer =>
          if innermost = wanted then scan .code outer rest else .unclosed innermost

def shown : Balance → String
  | .complete => "Complete"
  | .incomplete => "Incomplete"
  | .unpaired c => String.ofList ("Unpaired('".toList ++ [c] ++ "')".toList)
  | .unclosed c => String.ofList ("Unclosed('".toList ++ [c] ++ "')".toList)

def complaint : Balance → Option String
  | .unpaired c => some (c.toString ++ " is not paired")
  | .unclosed c => some (c.toString ++ " is not closed")
  | _ => none

end Balance

def balance (text : String) : Balance := Balance.scan .code [] text.toList

end RemoteEval.Repl
