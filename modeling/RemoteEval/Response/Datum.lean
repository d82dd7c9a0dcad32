import RemoteEval.Response.Token
import RemoteEval.Text.Utf8

/-!
Data of response events: strings, symbols and lists of data. A datum is read from tokens with a
bound on how deep lists may nest, so the reader never goes deeper than the bound, however many
parentheses a text holds.
-/
namespace RemoteEval.Response

inductive Datum where
  | string (text : String)
  | symbol (name : String)
  | list (items : List Datum)
  deriving Repr

namespace Datum

mutual

def shown : Datum → String
  | .string text => "String(" ++ Text.shown text ++ ")"
  | .symbol name => "Symbol(" ++ Text.shown name ++ ")"
  | .list items => "List([" ++ ", ".intercalate (allShown items) ++ "])"

def allShown : List Datum → List String
  | [] => []
  | item :: items => item.shown :: allShown items

end

end Datum

inductive Reason where
  | badEncoding (fault : Text.Utf8.Fault)
  | strayText
  | lineEnded
  | streamEnded
  | tooLong (bound : Nat)
  | unfinished (what : Unfinished)
  | unterminatedList
  | unexpectedParen
  | emptyEvent
  | tooDeep
  | trailing (token : Token)
  | notList (found : Datum)
  | frameNotString (found : Datum)
  | shape (tag : String)
  | noTag

def Reason.message : Reason → String
  | .badEncoding fault => "invalid utf-8 - " ++ fault.message
  | .strayText => "expected ( at start of event"
  | .lineEnded => "line ended inside an event"
  | .streamEnded => "stream ended inside an event"
  | .tooLong bound => s!"no line break within {bound} bytes"
  | .unfinished .string => "unterminated string"
  | .unfinished .escape => "unterminated escape in string"
  | .unterminatedList => "unterminated list"
  | .unexpectedParen => "unexpected )"
  | .emptyEvent => "empty event"
  | .tooDeep => "nesting too deep"
  | .trailing token => "trailing input after event - " ++ token.shown
  | .notList found => "expected event list - found " ++ found.shown
  | .frameNotString found => "expected string stack frame - found " ++ found.shown
  | .shape tag => "unexpected event shape for tag " ++ tag
  | .noTag => "event does not start with a tag"

def maxDepth : Nat := 16

def endReason (unfinished : Option Unfinished) (exhausted : Reason) : Reason :=
  match unfinished with
  | some what => .unfinished what
  | none => exhausted

/-- The lists that are open, innermost first, each with the data read in it, last first. -/
abbrev OpenLists := List (List Datum)

def place (datum : Datum) : OpenLists → Datum ⊕ OpenLists
  | [] => .inl datum
  | items :: outer => .inr ((datum :: items) :: outer)

def readDatum (unfinished : Option Unfinished) :
    OpenLists → List Token → Except Reason (Datum × List Token)
  | [], [] => .error (endReason unfinished .emptyEvent)
  | _ :: _, [] => .error (endReason unfinished .unterminatedList)
  | lists, .parenLeft :: rest =>
    if maxDepth ≤ lists.length then .error .tooDeep else readDatum unfinished ([] :: lists) rest
  | [], .parenRight :: _ => .error .unexpectedParen
  | items :: outer, .parenRight :: rest =>
    match place (.list items.reverse) outer with
    | .inl datum => .ok (datum, rest)
    | .inr lists => readDatum unfinished lists rest
  | lists, .string text :: rest =>
    match place (.string text) lists with
    | .inl datum => .ok (datum, rest)
    | .inr lists => readDatum unfinished lists rest
  | lists, .symbol name :: rest =>
    match place (.symbol name) lists with
    | .inl datum => .ok (datum, rest)
    | .inr lists => readDatum unfinished lists rest

end RemoteEval.Response
