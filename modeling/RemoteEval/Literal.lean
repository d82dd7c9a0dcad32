/-!
String literals as the interpreter reads them. A literal stands on one line between double
quotes. Quotes, backslashes, dollars (which would start an interpolation) and all control
characters inside it are escaped, so a text cannot end its literal or be evaluated in it.
-/
namespace RemoteEval.Literal

def isControl (c : Char) : Bool := c.toNat < 0x20 || (0x7f ≤ c.toNat && c.toNat < 0xa0)

def fourDigits (n : Nat) : List Char :=
  let digits := Nat.toDigits 16 n
  List.replicate (4 - digits.length) '0' ++ digits

def escapeChar (c : Char) : List Char :=
  if c = '\\' then ['\\', '\\']
  else if c = '"' then ['\\', '"']
  else if c = '$' then ['\\', '$']
  else if c = '\n' then ['\\', 'n']
  else if c = '\r' then ['\\', 'r']
  else if c = '\t' then ['\\', 't']
  else if isControl c then '\\' :: 'u' :: fourDigits c.toNat
  else [c]

def escape (text : List Char) : List Char := text.flatMap escapeChar

def quote (text : String) : String := String.ofList ('"' :: escape text.toList ++ ['"'])

def hexDigit? (c : Char) : Option Nat :=
  if c.isDigit then some (c.toNat - '0'.toNat)
  else if 'a' ≤ c ∧ c ≤ 'f' then some (c.toNat - 'a'.toNat + 10)
  else if 'A' ≤ c ∧ c ≤ 'F' then some (c.toNat - 'A'.toNat + 10)
  else none

def hexValue? (digits : List Char) : Option Nat :=
  digits.foldlM (fun value c => (hexDigit? c).map (value * 16 + ·)) 0

/-- The character with the code point written in four characters. A plus sign may stand in place
of the first digit. Surrogates stand for no character. -/
def codePoint? (a b c d : Char) : Option Char :=
  let digits := if a = '+' then [b, c, d] else [a, b, c, d]
  (hexValue? digits).bind fun n => if h : n.isValidChar then some (Char.ofNatAux n h) else none

def escaped? (c : Char) : Option Char :=
  if c = 'n' then some '\n'
  else if c = 'r' then some '\r'
  else if c = 't' then some '\t'
  else if c = '\\' ∨ c = '"' ∨ c = '$' then some c
  else none

/-- Read the inside of a literal. A bare quote or dollar, an unknown escape or one that is cut
short are refused. -/
def unescape : List Char → Option (List Char)
  | [] => some []
  | c :: rest =>
    if c = '\\' then
      match rest with
      | [] => none
      | e :: rest =>
        if e = 'u' then
          match rest with
          | a :: b :: c :: d :: rest =>
            (codePoint? a b c d).bind fun x => (unescape rest).map (x :: ·)
          | _ => none
        else (escaped? e).bind fun x => (unescape rest).map (x :: ·)
    else if c = '"' ∨ c = '$' then none
    else (unescape rest).map (c :: ·)

def unquote (literal : String) : Option String :=
  match literal.toList with
  | '"' :: rest =>
    match rest.getLast? with
    | some '"' => (unescape rest.dropLast).map String.ofList
    | _ => none
  | _ => none

end RemoteEval.Literal
