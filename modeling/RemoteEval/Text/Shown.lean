import RemoteEval.Text.Hidden
import RemoteEval.Text.Mark

/-!
Texts as they are shown in messages: in double quotes, with quotes and backslashes escaped, the
common controls by letter, and every character that has no picture of its own or would join its
neighbour by code point. Whatever a text holds, the shown form is one line of visible
characters.
-/
namespace RemoteEval.Text

def showChar (c : Char) : List Char :=
  if c = '"' then ['\\', '"']
  else if c = '\\' then ['\\', '\\']
  else if c = '\n' then ['\\', 'n']
  else if c = '\r' then ['\\', 'r']
  else if c = '\t' then ['\\', 't']
  else if c.toNat = 0 then ['\\', '0']
  else if isMark c || isHidden c then ['\\', 'u', '\x7b'] ++ Nat.toDigits 16 c.toNat ++ ['\x7d']
  else [c]

def shown (text : String) : String :=
  String.ofList ('"' :: text.toList.flatMap showChar ++ ['"'])

end RemoteEval.Text
