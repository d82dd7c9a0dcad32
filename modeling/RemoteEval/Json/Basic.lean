import RemoteEval.Json.Number

/-!
JSON values and their compact text. A string literal is kept as `none` if its bytes or escapes
stand for no text: such a literal may be skipped, but it has no value.
-/
namespace RemoteEval

inductive Json where
  | null
  | bool (b : Bool)
  | number (n : Json.Number)
  | string (text : Option String)
  | array (items : List Json)
  | object (fields : List (Option String × Json))

namespace Json

def escapeChar (c : Char) : List Char :=
  if c = '"' then ['\\', '"']
  else if c = '\\' then ['\\', '\\']
  else if c = '\n' then ['\\', 'n']
  else if c = '\r' then ['\\', 'r']
  else if c = '\t' then ['\\', 't']
  else if c.toNat = 8 then ['\\', 'b']
  else if c.toNat = 12 then ['\\', 'f']
  else if c.toNat < 16 then ['\\', 'u', '0', '0', '0'] ++ Nat.toDigits 16 c.toNat
  else if c.toNat < 32 then ['\\', 'u', '0', '0'] ++ Nat.toDigits 16 c.toNat
  else [c]

def quoted (text : String) : String :=
  String.ofList ('"' :: text.toList.flatMap escapeChar ++ ['"'])

/-- The fields in the order of their names, of equal names the last. -/
def inOrder (fields : List (String × String)) : List (String × String) :=
  let sorted := fields.reverse.mergeSort fun a b => decide (a.1 ≤ b.1)
  sorted.foldr (fun field rest =>
    field :: rest.dropWhile fun next => next.1 == field.1) []

mutual

def text : Json → String
  | .null => "null"
  | .bool b => if b then "true" else "false"
  | .number n => (n.quantity?.map Quantity.text).getD "null"
  | .string s => quoted (s.getD "")
  | .array items => "[" ++ ",".intercalate (itemTexts items) ++ "]"
  | .object fields =>
    "\x7b" ++ ",".intercalate ((inOrder (fieldTexts fields)).map fun field =>
      quoted field.1 ++ ":" ++ field.2) ++ "\x7d"

def itemTexts : List Json → List String
  | [] => []
  | item :: items => item.text :: itemTexts items

def fieldTexts : List (Option String × Json) → List (String × String)
  | [] => []
  | (name, value) :: fields => (name.getD "", value.text) :: fieldTexts fields

end

end Json

end RemoteEval
