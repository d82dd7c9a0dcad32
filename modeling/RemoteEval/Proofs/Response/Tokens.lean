import RemoteEval.Response.Token

/-!
Tokens one character at a time. What a text holds is what its first character gives and what the
rest holds for a reader that has gone on by that character, so facts about the tokens of a text go
by induction on the text, for every place that a reader may stand in.
-/
namespace RemoteEval.Response

open Text

theorem isDelimiter_cases {c : Char} (h : isDelimiter c = true) :
    isBlank c = true ∨ c = '(' ∨ c = ')' ∨ c = '"' := by
  simpa [isDelimiter, or_assoc] using h

def Inside.tokens (inside : Inside) (text : List Char) : List Token × Option Unfinished :=
  (text.foldl Lexer.read ⟨[], inside⟩).finish

theorem Inside.tokens_nothing (text : List Char) : Inside.nothing.tokens text = tokenize text := rfl

theorem Lexer.start_tokens (tokens : List Token) (c : Char) :
    Lexer.start tokens c =
      ⟨(Lexer.start [] c).tokens ++ tokens, (Lexer.start [] c).inside⟩ := by
  unfold Lexer.start
  repeat' split
  all_goals rfl

/-- The tokens read before only precede those read on. -/
theorem Lexer.read_tokens (tokens : List Token) (inside : Inside) (c : Char) :
    Lexer.read ⟨tokens, inside⟩ c =
      ⟨(Lexer.read ⟨[], inside⟩ c).tokens ++ tokens, (Lexer.read ⟨[], inside⟩ c).inside⟩ := by
  cases inside with
  | nothing => exact Lexer.start_tokens tokens c
  | symbol done =>
    simp only [Lexer.read]
    split
    · rw [Lexer.start_tokens (_ :: tokens), Lexer.start_tokens [_]]
      simp
    · rfl
  | string done =>
    simp only [Lexer.read]
    repeat' split
    all_goals rfl
  | escape done => rfl

theorem Lexer.finish_tokens (tokens : List Token) (inside : Inside) :
    Lexer.finish ⟨tokens, inside⟩ =
      (tokens.reverse ++ (Lexer.finish ⟨[], inside⟩).1, (Lexer.finish ⟨[], inside⟩).2) := by
  cases inside <;> simp [Lexer.finish]

theorem Lexer.foldl_read_finish (tokens : List Token) (inside : Inside) (text : List Char) :
    (text.foldl Lexer.read ⟨tokens, inside⟩).finish =
      (tokens.reverse ++ (inside.tokens text).1, (inside.tokens text).2) := by
  induction text generalizing tokens inside with
  | nil => exact Lexer.finish_tokens tokens inside
  | cons c text ih =>
    rw [Inside.tokens, List.foldl_cons, List.foldl_cons, Lexer.read_tokens tokens, ih, ih]
    simp

/-- The tokens that the first character ends come before those of the rest. -/
theorem Inside.tokens_cons (inside : Inside) (c : Char) (text : List Char) :
    inside.tokens (c :: text) =
      ((Lexer.read ⟨[], inside⟩ c).tokens.reverse ++
          ((Lexer.read ⟨[], inside⟩ c).inside.tokens text).1,
        ((Lexer.read ⟨[], inside⟩ c).inside.tokens text).2) :=
  Lexer.foldl_read_finish _ _ text

theorem Inside.tokens_blank {c : Char} (hc : isBlank c = true) (text : List Char) :
    Inside.nothing.tokens (c :: text) = Inside.nothing.tokens text := by
  rw [tokens_cons]
  simp [Lexer.read, Lexer.start, hc]

theorem Inside.tokens_parenLeft (text : List Char) :
    Inside.nothing.tokens ('(' :: text) =
      (.parenLeft :: (Inside.nothing.tokens text).1, (Inside.nothing.tokens text).2) := by
  rw [tokens_cons]
  rfl

theorem Inside.tokens_parenRight (text : List Char) :
    Inside.nothing.tokens (')' :: text) =
      (.parenRight :: (Inside.nothing.tokens text).1, (Inside.nothing.tokens text).2) := by
  rw [tokens_cons]
  rfl

theorem Inside.tokens_quote (text : List Char) :
    Inside.nothing.tokens ('"' :: text) = (Inside.string []).tokens text := by
  rw [tokens_cons]
  rfl

theorem Inside.tokens_letter {c : Char} (hc : isDelimiter c = false) (text : List Char) :
    Inside.nothing.tokens (c :: text) = (Inside.symbol [c]).tokens text := by
  simp only [isDelimiter, Bool.or_eq_false_iff, beq_eq_false_iff_ne] at hc
  rw [tokens_cons]
  simp [Lexer.read, Lexer.start, hc]

theorem Inside.tokens_symbol_letter {c : Char} (hc : isDelimiter c = false) (done text : List Char) :
    (Inside.symbol done).tokens (c :: text) = (Inside.symbol (c :: done)).tokens text := by
  rw [tokens_cons]
  simp [Lexer.read, hc]

/-- A delimiter ends a symbol and is then read as it is anywhere. -/
theorem Inside.tokens_symbol_delimiter {c : Char} (hc : isDelimiter c = true)
    (done text : List Char) :
    (Inside.symbol done).tokens (c :: text) =
      (.symbol (String.ofList done.reverse) :: (Inside.nothing.tokens (c :: text)).1,
        (Inside.nothing.tokens (c :: text)).2) := by
  have hread : Lexer.read ⟨[], .symbol done⟩ c =
      ⟨(Lexer.start [] c).tokens ++ [.symbol (String.ofList done.reverse)],
        (Lexer.start [] c).inside⟩ := by
    simp only [Lexer.read, hc, if_true]
    exact Lexer.start_tokens _ c
  rw [tokens_cons, hread, tokens_cons]
  simp [Lexer.read]

theorem Inside.tokens_string_quote (done text : List Char) :
    (Inside.string done).tokens ('"' :: text) =
      (.string (String.ofList done.reverse) :: (Inside.nothing.tokens text).1,
        (Inside.nothing.tokens text).2) := by
  rw [tokens_cons]
  rfl

theorem Inside.tokens_string_backslash (done text : List Char) :
    (Inside.string done).tokens ('\\' :: text) = (Inside.escape done).tokens text := by
  rw [tokens_cons]
  rfl

theorem Inside.tokens_string_plain {c : Char} (hquote : c ≠ '"') (hbackslash : c ≠ '\\')
    (done text : List Char) :
    (Inside.string done).tokens (c :: text) = (Inside.string (c :: done)).tokens text := by
  rw [tokens_cons]
  simp [Lexer.read, hquote, hbackslash]

theorem Inside.tokens_escape (c : Char) (done text : List Char) :
    (Inside.escape done).tokens (c :: text) =
      (Inside.string (unescapeChar c :: done)).tokens text := by
  rw [tokens_cons]
  rfl

/-- A closing parenthesis that ends a text, and no string in it, is the last token. -/
theorem Inside.getLast?_tokens {inside : Inside} {text : List Char}
    (hlast : text.getLast? = some ')') (hend : (inside.tokens text).2 = none) :
    (inside.tokens text).1.getLast? = some .parenRight := by
  induction text generalizing inside with
  | nil => simp at hlast
  | cons c text ih =>
    cases text with
    | nil =>
      obtain rfl : c = ')' := by simpa using hlast
      cases inside with
      | nothing => rfl
      | symbol done => rfl
      | string done => cases hend
      | escape done => cases hend
    | cons d text =>
      rw [List.getLast?_cons_cons] at hlast
      rw [tokens_cons] at hend ⊢
      have hrest := ih hlast hend
      rw [List.getLast?_append, hrest]
      rfl

end RemoteEval.Response
