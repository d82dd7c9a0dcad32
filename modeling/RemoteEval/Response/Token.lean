import RemoteEval.Text.Blank
import RemoteEval.Text.Shown

/-!
Tokens of response events. A token is a parenthesis, a quoted string, or a symbol, which is a
longest run of characters other than blanks, parentheses and quotes. Blanks stand between tokens
and nowhere else matter. The reader goes once over the text and keeps what it is inside of.
-/
namespace RemoteEval.Response

open Text

inductive Token where
  | parenLeft
  | parenRight
  | string (text : String)
  | symbol (name : String)
  deriving DecidableEq, Repr

def Token.shown : Token → String
  | .parenLeft => "ParenLeft"
  | .parenRight => "ParenRight"
  | .string text => "String(" ++ Text.shown text ++ ")"
  | .symbol name => "Symbol(" ++ Text.shown name ++ ")"

inductive Unfinished where
  | string
  | escape
  deriving DecidableEq, Repr

/-- What a reader is inside of. Characters read are kept last first. -/
inductive Inside where
  | nothing
  | symbol (done : List Char)
  | string (done : List Char)
  | escape (done : List Char)

/-- A reader of tokens: the tokens read, last first, and what it is inside of. -/
structure Lexer where
  tokens : List Token := []
  inside : Inside := .nothing

def isDelimiter (c : Char) : Bool := isBlank c || c == '(' || c == ')' || c == '"'

/-- The character that an escaped one stands for: a line break, a tab or a carriage return for
their letters, and itself for any other. -/
def unescapeChar (c : Char) : Char :=
  if c = 'n' then '\n' else if c = 't' then '\t' else if c = 'r' then '\r' else c

def Lexer.start (tokens : List Token) (c : Char) : Lexer :=
  if isBlank c then ⟨tokens, .nothing⟩
  else if c = '(' then ⟨.parenLeft :: tokens, .nothing⟩
  else if c = ')' then ⟨.parenRight :: tokens, .nothing⟩
  else if c = '"' then ⟨tokens, .string []⟩
  else ⟨tokens, .symbol [c]⟩

def Lexer.read (lexer : Lexer) (c : Char) : Lexer :=
  match lexer.inside with
  | .nothing => Lexer.start lexer.tokens c
  | .symbol done =>
    if isDelimiter c then Lexer.start (.symbol (String.ofList done.reverse) :: lexer.tokens) c
    else ⟨lexer.tokens, .symbol (c :: done)⟩
  | .string done =>
    if c = '"' then ⟨.string (String.ofList done.reverse) :: lexer.tokens, .nothing⟩
    else if c = '\\' then ⟨lexer.tokens, .escape done⟩
    else ⟨lexer.tokens, .string (c :: done)⟩
  | .escape done => ⟨lexer.tokens, .string (unescapeChar c :: done)⟩

def Lexer.finish (lexer : Lexer) : List Token × Option Unfinished :=
  match lexer.inside with
  | .nothing => (lexer.tokens.reverse, none)
  | .symbol done => ((.symbol (String.ofList done.reverse) :: lexer.tokens).reverse, none)
  | .string _ => (lexer.tokens.reverse, some .string)
  | .escape _ => (lexer.tokens.reverse, some .escape)

def tokenize (text : List Char) : List Token × Option Unfinished :=
  (text.foldl Lexer.read {}).finish

end RemoteEval.Response
