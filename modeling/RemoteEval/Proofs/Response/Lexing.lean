import Mathlib.Data.List.Induction
import RemoteEval.Proofs.Response.Tokens

/-!
What the tokens of a text are, said without the reader that finds them. A token is a parenthesis, a
string up to the first quote that is not escaped, or a symbol that goes on for as long as no
delimiter comes; blanks may stand anywhere between them. Every text falls into tokens in this way,
up to a string that its end leaves open, and into the tokens that the reader finds and no others.
-/
namespace RemoteEval.Response

open Text

inductive EscapeOf : Char → Char → Prop where
  | lineBreak : EscapeOf 'n' '\n'
  | tab : EscapeOf 't' '\t'
  | carriageReturn : EscapeOf 'r' '\r'
  | itself {c : Char} (hother : c ∉ ['n', 't', 'r']) : EscapeOf c c

/-- What may stand in a string, with no quote in it but behind a backslash, and the characters that
it stands for. -/
inductive StringInside : List Char → List Char → Prop where
  | nil : StringInside [] []
  | plain {c : Char} {written text : List Char} (hquote : c ≠ '"') (hbackslash : c ≠ '\\')
    (hrest : StringInside written text) : StringInside (c :: written) (c :: text)
  | escaped {letter c : Char} {written text : List Char} (hletter : EscapeOf letter c)
    (hrest : StringInside written text) : StringInside ('\\' :: letter :: written) (c :: text)

inductive Lexes : List Char → List Token → Option Unfinished → Prop where
  | nil : Lexes [] [] none
  | blank {c : Char} {text : List Char} {tokens : List Token} {unfinished : Option Unfinished}
    (hblank : isBlank c = true) (hrest : Lexes text tokens unfinished) :
    Lexes (c :: text) tokens unfinished
  | parenLeft {text : List Char} {tokens : List Token} {unfinished : Option Unfinished}
    (hrest : Lexes text tokens unfinished) : Lexes ('(' :: text) (.parenLeft :: tokens) unfinished
  | parenRight {text : List Char} {tokens : List Token} {unfinished : Option Unfinished}
    (hrest : Lexes text tokens unfinished) : Lexes (')' :: text) (.parenRight :: tokens) unfinished
  | string {written text : List Char} {content : String} {tokens : List Token}
    {unfinished : Option Unfinished} (hinside : StringInside written content.toList)
    (hrest : Lexes text tokens unfinished) :
    Lexes ('"' :: (written ++ '"' :: text)) (.string content :: tokens) unfinished
  | symbol {name : String} {text : List Char} {tokens : List Token}
    {unfinished : Option Unfinished} (hne : name.toList ≠ [])
    (hname : ∀ c ∈ name.toList, isDelimiter c = false)
    (hend : ∀ c ∈ text.head?, isDelimiter c = true) (hrest : Lexes text tokens unfinished) :
    Lexes (name.toList ++ text) (.symbol name :: tokens) unfinished
  | openString {written content : List Char} (hinside : StringInside written content) :
    Lexes ('"' :: written) [] (some .string)
  | openEscape {written content : List Char} (hinside : StringInside written content) :
    Lexes ('"' :: (written ++ ['\\'])) [] (some .escape)

theorem escapeOf_unescapeChar (c : Char) : EscapeOf c (unescapeChar c) := by
  unfold unescapeChar
  by_cases hn : c = 'n'
  · subst hn
    exact .lineBreak
  · by_cases ht : c = 't'
    · subst ht
      exact .tab
    · by_cases hr : c = 'r'
      · subst hr
        exact .carriageReturn
      · simp only [if_neg hn, if_neg ht, if_neg hr]
        exact .itself (by simp [hn, ht, hr])

theorem EscapeOf.eq_unescapeChar {letter c : Char} (h : EscapeOf letter c) :
    c = unescapeChar letter := by
  cases h with
  | lineBreak => rfl
  | tab => rfl
  | carriageReturn => rfl
  | itself hother =>
    simp only [List.mem_cons, not_or] at hother
    simp [unescapeChar, hother]

/-- A reader goes through the inside of a string and keeps what it stands for. -/
theorem StringInside.tokens {written text : List Char} (h : StringInside written text)
    (done rest : List Char) :
    (Inside.string done).tokens (written ++ rest) =
      (Inside.string (text.reverse ++ done)).tokens rest := by
  induction h generalizing done with
  | nil => rfl
  | plain hquote hbackslash hrest ih =>
    rw [List.cons_append, Inside.tokens_string_plain hquote hbackslash, ih, List.reverse_cons,
      List.append_assoc]
    rfl
  | escaped hletter hrest ih =>
    rw [List.cons_append, List.cons_append, Inside.tokens_string_backslash, Inside.tokens_escape,
      ← hletter.eq_unescapeChar, ih, List.reverse_cons, List.append_assoc]
    rfl

theorem Inside.tokens_symbol_letters {name : List Char} (h : ∀ c ∈ name, isDelimiter c = false)
    (done rest : List Char) :
    (Inside.symbol done).tokens (name ++ rest) =
      (Inside.symbol (name.reverse ++ done)).tokens rest := by
  induction name generalizing done with
  | nil => rfl
  | cons c name ih =>
    simp only [List.forall_mem_cons] at h
    rw [List.cons_append, Inside.tokens_symbol_letter h.1, ih h.2, List.reverse_cons,
      List.append_assoc]
    rfl

/-- A run of letters that a delimiter or the end of the text stops is a symbol. -/
theorem Inside.tokens_symbol {name : List Char} (hne : name ≠ [])
    (hname : ∀ c ∈ name, isDelimiter c = false) {rest : List Char}
    (hend : ∀ c ∈ rest.head?, isDelimiter c = true) :
    Inside.nothing.tokens (name ++ rest) =
      (.symbol (String.ofList name) :: (Inside.nothing.tokens rest).1,
        (Inside.nothing.tokens rest).2) := by
  cases name with
  | nil => exact absurd rfl hne
  | cons c name =>
    simp only [List.forall_mem_cons] at hname
    rw [List.cons_append, Inside.tokens_letter hname.1, Inside.tokens_symbol_letters hname.2]
    cases rest with
    | nil => simp [Inside.tokens, Lexer.finish]
    | cons d rest =>
      rw [Inside.tokens_symbol_delimiter (hend d rfl)]
      simp

/-- The reader finds the tokens that a text falls into. -/
theorem Lexes.tokenize_eq {text : List Char} {tokens : List Token} {unfinished : Option Unfinished}
    (h : Lexes text tokens unfinished) : tokenize text = (tokens, unfinished) := by
  rw [← Inside.tokens_nothing]
  induction h with
  | nil => rfl
  | blank hblank hrest ih => rw [Inside.tokens_blank hblank, ih]
  | parenLeft hrest ih => rw [Inside.tokens_parenLeft, ih]
  | parenRight hrest ih => rw [Inside.tokens_parenRight, ih]
  | string hinside hrest ih =>
    rw [Inside.tokens_quote, hinside.tokens, Inside.tokens_string_quote, ih, List.append_nil,
      List.reverse_reverse, String.ofList_toList]
  | symbol hne hname hend hrest ih =>
    rw [Inside.tokens_symbol hne hname hend, ih, String.ofList_toList]
  | @openString written content hinside =>
    have hread := hinside.tokens [] []
    rw [List.append_nil] at hread
    rw [Inside.tokens_quote, hread]
    rfl
  | openEscape hinside =>
    rw [Inside.tokens_quote, hinside.tokens, Inside.tokens_string_backslash]
    rfl

/-- What follows an opening quote: the inside of the string, and its closing quote with more text
unless the string is left open. -/
inductive BehindQuote : List Char → Prop where
  | closed {written content rest : List Char} (hinside : StringInside written content) :
    BehindQuote (written ++ '"' :: rest)
  | openString {written content : List Char} (hinside : StringInside written content) :
    BehindQuote written
  | openEscape {written content : List Char} (hinside : StringInside written content) :
    BehindQuote (written ++ ['\\'])

theorem BehindQuote.plain {c : Char} (hquote : c ≠ '"') (hbackslash : c ≠ '\\') {text : List Char}
    (h : BehindQuote text) : BehindQuote (c :: text) := by
  cases h with
  | closed hinside => exact .closed (.plain hquote hbackslash hinside)
  | openString hinside => exact .openString (.plain hquote hbackslash hinside)
  | openEscape hinside => exact .openEscape (.plain hquote hbackslash hinside)

theorem BehindQuote.escaped (letter : Char) {text : List Char} (h : BehindQuote text) :
    BehindQuote ('\\' :: letter :: text) := by
  have hletter := escapeOf_unescapeChar letter
  cases h with
  | closed hinside => exact .closed (.escaped hletter hinside)
  | openString hinside => exact .openString (.escaped hletter hinside)
  | openEscape hinside => exact .openEscape (.escaped hletter hinside)

/-- Every text may follow an opening quote. An escape takes two characters, and so does the
induction. -/
theorem behindQuote (text : List Char) : BehindQuote text := by
  induction text using List.twoStepInduction with
  | nil => exact .openString .nil
  | singleton c =>
    by_cases hquote : c = '"'
    · subst hquote
      exact .closed .nil
    · by_cases hbackslash : c = '\\'
      · subst hbackslash
        exact .openEscape .nil
      · exact .plain hquote hbackslash (.openString .nil)
  | cons_cons c d text htext hrest =>
    by_cases hquote : c = '"'
    · subst hquote
      exact .closed .nil
    · by_cases hbackslash : c = '\\'
      · subst hbackslash
        exact htext.escaped d
      · exact (hrest d).plain hquote hbackslash

/-- A text that starts with a letter starts with a symbol. -/
theorem exists_symbol {c : Char} (hc : isDelimiter c = false) (text : List Char) :
    ∃ (name : String) (rest : List Char), c :: text = name.toList ++ rest ∧ name.toList ≠ [] ∧
      (∀ d ∈ name.toList, isDelimiter d = false) ∧ ∀ d ∈ rest.head?, isDelimiter d = true := by
  refine ⟨String.ofList ((c :: text).takeWhile fun d => !isDelimiter d),
    (c :: text).dropWhile fun d => !isDelimiter d, ?_, ?_, ?_, ?_⟩
  · rw [String.toList_ofList, List.takeWhile_append_dropWhile]
  · simp [hc]
  · intro d hd
    rw [String.toList_ofList] at hd
    simpa using List.all_eq_true.1 List.all_takeWhile d hd
  · intro d hd
    have hstop := List.head?_dropWhile_not (fun d => !isDelimiter d) (c :: text)
    rw [Option.mem_def.1 hd] at hstop
    simpa using hstop

/-- Every text falls into tokens. -/
theorem exists_lexes (text : List Char) : ∃ tokens unfinished, Lexes text tokens unfinished := by
  induction hlength : text.length using Nat.strongRecOn generalizing text with
  | ind length ih =>
    subst hlength
    cases text with
    | nil => exact ⟨[], none, .nil⟩
    | cons c text =>
      cases hc : isDelimiter c with
      | false =>
        obtain ⟨name, rest, htext, hne, hname, hend⟩ := exists_symbol hc text
        have hshorter : rest.length < (c :: text).length := by
          have hpos := List.length_pos_iff.2 hne
          rw [htext, List.length_append]
          omega
        obtain ⟨tokens, unfinished, hrest⟩ := ih _ hshorter rest rfl
        rw [htext]
        exact ⟨_, _, .symbol hne hname hend hrest⟩
      | true =>
        obtain ⟨tokens, unfinished, hrest⟩ := ih _ (Nat.lt_succ_self text.length) text rfl
        rcases isDelimiter_cases hc with hblank | rfl | rfl | rfl
        · exact ⟨_, _, .blank hblank hrest⟩
        · exact ⟨_, _, .parenLeft hrest⟩
        · exact ⟨_, _, .parenRight hrest⟩
        · cases behindQuote text with
          | openString hinside => exact ⟨_, _, .openString hinside⟩
          | openEscape hinside => exact ⟨_, _, .openEscape hinside⟩
          | @closed written content rest hinside =>
            have hcontent : StringInside written (String.ofList content).toList := by
              rwa [String.toList_ofList]
            obtain ⟨tokens, unfinished, hrest⟩ := ih rest.length (by simp; omega) rest rfl
            exact ⟨_, _, .string hcontent hrest⟩

/-- A text falls into the tokens that the reader finds and into no others. -/
theorem lexes_iff {text : List Char} {tokens : List Token} {unfinished : Option Unfinished} :
    Lexes text tokens unfinished ↔ tokenize text = (tokens, unfinished) := by
  constructor
  · exact Lexes.tokenize_eq
  · intro h
    obtain ⟨found, left, hlexes⟩ := exists_lexes text
    rw [hlexes.tokenize_eq] at h
    cases h
    exact hlexes

end RemoteEval.Response
