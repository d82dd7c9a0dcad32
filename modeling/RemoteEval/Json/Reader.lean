import RemoteEval.Json.Basic
import RemoteEval.Text.Utf8

/-!
Reading JSON texts. The grammar is the strict one: no comments, no trailing commas, no bare
names, no control characters inside strings, and nothing after the value.
-/
namespace RemoteEval.Json

open Text

inductive SyntaxFault where
  | ended
  | unexpected
  | controlCharacter
  | escape
  | trailing
  deriving DecidableEq, Repr

def SyntaxFault.message : SyntaxFault → String
  | .ended => "the text ends inside a value"
  | .unexpected => "a value, a comma or a closing bracket is missing"
  | .controlCharacter => "a string holds a control character"
  | .escape => "a string holds an unknown escape"
  | .trailing => "the text goes on after the value"

def isBlankByte (b : UInt8) : Bool := b = 0x20 || b = 0x0a || b = 0x0d || b = 0x09

def skipBlanks (bytes : List UInt8) : List UInt8 := bytes.dropWhile isBlankByte

def hexDigit? (b : UInt8) : Option Nat :=
  if 0x30 ≤ b && b ≤ 0x39 then some (b.toNat - 0x30)
  else if 0x61 ≤ b && b ≤ 0x66 then some (b.toNat - 0x61 + 10)
  else if 0x41 ≤ b && b ≤ 0x46 then some (b.toNat - 0x41 + 10)
  else none

def unit? : List UInt8 → Option (Nat × List UInt8)
  | a :: b :: c :: d :: rest => do
    let a ← hexDigit? a
    let b ← hexDigit? b
    let c ← hexDigit? c
    let d ← hexDigit? d
    return (((a * 16 + b) * 16 + c) * 16 + d, rest)
  | _ => none

def lowUnit? : List UInt8 → Option (Nat × List UInt8)
  | 0x5c :: 0x75 :: rest => do
    let (unit, rest) ← unit? rest
    if 0xdc00 ≤ unit ∧ unit ≤ 0xdfff then return (unit, rest) else none
  | _ => none

def escaped? (e : UInt8) : Option UInt8 :=
  if e = 0x22 || e = 0x5c || e = 0x2f then some e
  else if e = 0x62 then some 0x08
  else if e = 0x66 then some 0x0c
  else if e = 0x6e then some 0x0a
  else if e = 0x72 then some 0x0d
  else if e = 0x74 then some 0x09
  else none

def literalText (sound : Bool) (done : List UInt8) : Option String :=
  if sound then
    match Utf8.decode done.reverse with
    | .ok text => some (String.ofList text)
    | .error _ => none
  else none

/-- Read a string literal after its opening quote. `done` holds the bytes read, last first;
`sound` tells whether they stand for text so far. -/
def readString : Nat → Bool → List UInt8 → List UInt8 →
    Except SyntaxFault (Option String × List UInt8)
  | 0, _, _, _ => .error .ended
  | _ + 1, _, _, [] => .error .ended
  | n + 1, sound, done, b :: rest =>
    if b = 0x22 then .ok (literalText sound done, rest)
    else if b < 0x20 then .error .controlCharacter
    else if b = 0x5c then
      match rest with
      | [] => .error .ended
      | e :: rest =>
        if e = 0x75 then
          match unit? rest with
          | none => .error .escape
          | some (unit, rest) =>
            if 0xd800 ≤ unit ∧ unit ≤ 0xdbff then
              match lowUnit? rest with
              | some (low, rest) =>
                let c := Char.ofNat (0x10000 + (unit - 0xd800) * 1024 + (low - 0xdc00))
                readString n sound ((String.utf8EncodeChar c).reverse ++ done) rest
              | none => readString n false done rest
            else if 0xdc00 ≤ unit ∧ unit ≤ 0xdfff then readString n false done rest
            else
              readString n sound ((String.utf8EncodeChar (Char.ofNat unit)).reverse ++ done) rest
        else
          match escaped? e with
          | some x => readString n sound (x :: done) rest
          | none => .error .escape
    else readString n sound (b :: done) rest

def digits (bytes : List UInt8) : List Nat × List UInt8 :=
  let isDigit (b : UInt8) : Bool := 0x30 ≤ b && b ≤ 0x39
  ((bytes.takeWhile isDigit).map fun b => b.toNat - 0x30, bytes.dropWhile isDigit)

def readFraction : List UInt8 → Except SyntaxFault (List Nat × List UInt8)
  | 0x2e :: rest =>
    match digits rest with
    | ([], _) => .error .unexpected
    | found => .ok found
  | rest => .ok ([], rest)

def readExponent : List UInt8 → Except SyntaxFault (Option Int × List UInt8)
  | [] => .ok (none, [])
  | b :: rest =>
    if b = 0x65 || b = 0x45 then
      let (negative, rest) : Bool × List UInt8 :=
        match rest with
        | 0x2b :: rest => (false, rest)
        | 0x2d :: rest => (true, rest)
        | rest => (false, rest)
      match digits rest with
      | ([], _) => .error .unexpected
      | (found, rest) =>
        let value : Nat := found.foldl (fun value digit => value * 10 + digit) 0
        .ok (some (if negative then -value else value), rest)
    else .ok (none, b :: rest)

/-- Read a number after its sign. A whole part of several digits does not start with zero. -/
def readNumber (negative : Bool) (bytes : List UInt8) :
    Except SyntaxFault (Number × List UInt8) := do
  let (whole, rest) := digits bytes
  match whole with
  | [] => throw .unexpected
  | 0 :: _ :: _ => throw .unexpected
  | _ =>
    let (fraction, rest) ← readFraction rest
    let (exponent, rest) ← readExponent rest
    return (⟨negative, whole, fraction, exponent⟩, rest)

def afterWord (word bytes : List UInt8) : Except SyntaxFault (List UInt8) :=
  if word.isPrefixOf bytes then .ok (bytes.drop word.length) else .error .unexpected

mutual

/-- Read one value and the bytes after it; `n` bounds how deep and how far the reader goes. -/
def readValue : Nat → List UInt8 → Except SyntaxFault (Json × List UInt8)
  | 0, _ => .error .ended
  | n + 1, bytes =>
    match skipBlanks bytes with
    | [] => .error .ended
    | b :: rest =>
      if b = 0x22 then do
        let (text, rest) ← readString n true [] rest
        return (.string text, rest)
      else if b = 0x5b then
        match skipBlanks rest with
        | 0x5d :: rest => .ok (.array [], rest)
        | rest => do
          let (items, rest) ← readItems n rest
          return (.array items, rest)
      else if b = 0x7b then
        match skipBlanks rest with
        | 0x7d :: rest => .ok (.object [], rest)
        | rest => do
          let (fields, rest) ← readFields n rest
          return (.object fields, rest)
      else if b = 0x6e then do
        let rest ← afterWord [0x75, 0x6c, 0x6c] rest
        return (.null, rest)
      else if b = 0x74 then do
        let rest ← afterWord [0x72, 0x75, 0x65] rest
        return (.bool true, rest)
      else if b = 0x66 then do
        let rest ← afterWord [0x61, 0x6c, 0x73, 0x65] rest
        return (.bool false, rest)
      else if b = 0x2d then do
        let (found, rest) ← readNumber true rest
        return (.number found, rest)
      else do
        let (found, rest) ← readNumber false (b :: rest)
        return (.number found, rest)

def readItems : Nat → List UInt8 → Except SyntaxFault (List Json × List UInt8)
  | 0, _ => .error .ended
  | n + 1, bytes => do
    let (item, rest) ← readValue n bytes
    match skipBlanks rest with
    | 0x5d :: rest => return ([item], rest)
    | 0x2c :: rest =>
      let (items, rest) ← readItems n rest
      return (item :: items, rest)
    | [] => throw .ended
    | _ => throw .unexpected

def readFields : Nat → List UInt8 →
    Except SyntaxFault (List (Option String × Json) × List UInt8)
  | 0, _ => .error .ended
  | n + 1, bytes =>
    match skipBlanks bytes with
    | 0x22 :: rest => do
      let (name, rest) ← readString n true [] rest
      match skipBlanks rest with
      | 0x3a :: rest =>
        let (value, rest) ← readValue n rest
        match skipBlanks rest with
        | 0x7d :: rest => return ([(name, value)], rest)
        | 0x2c :: rest =>
          let (fields, rest) ← readFields n rest
          return ((name, value) :: fields, rest)
        | [] => throw .ended
        | _ => throw .unexpected
      | [] => throw .ended
      | _ => throw .unexpected
    | [] => .error .ended
    | _ => .error .unexpected

end

def parse (bytes : List UInt8) : Except SyntaxFault Json := do
  let (value, rest) ← readValue (2 * bytes.length + 2) bytes
  if (skipBlanks rest).isEmpty then return value else throw .trailing

end RemoteEval.Json
