import Mathlib.Data.List.Forall2
import RemoteEval.Proofs.Response.Grammar

/-!
How events are written. Every string stands in quotes, with a backslash before each quote and
backslash in it and a letter behind a backslash for each line break. The writer is free to write
more characters behind a backslash than it has to. Whatever it does, the reader gives back the
response that was written, and the event is a text of one line in parentheses.
-/
namespace RemoteEval.Response

open Text

inductive CharWritten : Char → List Char → Prop where
  | plain {c : Char} (hquote : c ≠ '"') (hbackslash : c ≠ '\\') (hbreak : c ≠ '\n') :
    CharWritten c [c]
  | escaped {c : Char} (hother : c ∉ ['n', 't', 'r', '\n']) : CharWritten c ['\\', c]
  | lineBreak : CharWritten '\n' ['\\', 'n']
  | tab : CharWritten '\t' ['\\', 't']
  | carriageReturn : CharWritten '\r' ['\\', 'r']

inductive TextWritten : List Char → List Char → Prop where
  | nil : TextWritten [] []
  | cons {c : Char} {text first rest : List Char} (hfirst : CharWritten c first)
    (hrest : TextWritten text rest) : TextWritten (c :: text) (first ++ rest)

def StringWritten (text : String) (written : List Char) : Prop :=
  ∃ inner, TextWritten text.toList inner ∧ written = '"' :: (inner ++ ['"'])

inductive EventWritten : Response → List Char → Prop where
  | success {id : RequestId} {first : List Char} (hid : StringWritten id first) :
    EventWritten (.success id) ("(success ".toList ++ (first ++ [')']))
  | failure {id : RequestId} {message : String} {stack : List String} {first second : List Char}
    {frames : List (List Char)} (hid : StringWritten id first)
    (hmessage : StringWritten message second) (hstack : List.Forall₂ StringWritten stack frames) :
    EventWritten (.failure id message stack) ("(failure ".toList ++
      (first ++ ' ' :: (second ++ ' ' :: '(' :: ([' '].intercalate frames ++ [')', ')']))))

theorem exists_charWritten (c : Char) : ∃ written, CharWritten c written := by
  by_cases hbreak : c = '\n'
  · subst hbreak
    exact ⟨_, .lineBreak⟩
  · by_cases hmark : c = '"' ∨ c = '\\'
    · refine ⟨_, .escaped ?_⟩
      rcases hmark with rfl | rfl <;> decide
    · simp only [not_or] at hmark
      exact ⟨_, .plain hmark.1 hmark.2 hbreak⟩

theorem exists_stringWritten (text : String) : ∃ written, StringWritten text written := by
  suffices hinner : ∀ text : List Char, ∃ inner, TextWritten text inner by
    obtain ⟨inner, htext⟩ := hinner text.toList
    exact ⟨_, inner, htext, rfl⟩
  intro text
  induction text with
  | nil => exact ⟨[], .nil⟩
  | cons c text ih =>
    obtain ⟨first, hfirst⟩ := exists_charWritten c
    obtain ⟨rest, hrest⟩ := ih
    exact ⟨first ++ rest, .cons hfirst hrest⟩

theorem exists_framesWritten (stack : List String) :
    ∃ frames, List.Forall₂ StringWritten stack frames := by
  induction stack with
  | nil => exact ⟨[], .nil⟩
  | cons frame stack ih =>
    obtain ⟨written, hframe⟩ := exists_stringWritten frame
    obtain ⟨frames, hframes⟩ := ih
    exact ⟨written :: frames, .cons hframe hframes⟩

/-- Every answer to a request can be written. -/
theorem exists_eventWritten {response : Response} (h : response.id?.isSome = true) :
    ∃ event, EventWritten response event := by
  cases response with
  | success id =>
    obtain ⟨first, hid⟩ := exists_stringWritten id
    exact ⟨_, .success hid⟩
  | failure id message stack =>
    obtain ⟨first, hid⟩ := exists_stringWritten id
    obtain ⟨second, hmessage⟩ := exists_stringWritten message
    obtain ⟨frames, hstack⟩ := exists_framesWritten stack
    exact ⟨_, .failure hid hmessage hstack⟩
  | unrecognized raw reason => cases h

/-- What is written for a character stands for that character in a string. -/
theorem CharWritten.stringInside {c : Char} {first rest text : List Char} (h : CharWritten c first)
    (hrest : StringInside rest text) : StringInside (first ++ rest) (c :: text) := by
  cases h with
  | plain hquote hbackslash hbreak => exact .plain hquote hbackslash hrest
  | escaped hother =>
    simp only [List.mem_cons, not_or] at hother
    exact .escaped (.itself (by simp [hother])) hrest
  | lineBreak => exact .escaped .lineBreak hrest
  | tab => exact .escaped .tab hrest
  | carriageReturn => exact .escaped .carriageReturn hrest

theorem TextWritten.stringInside {text written : List Char} (h : TextWritten text written) :
    StringInside written text := by
  induction h with
  | nil => exact .nil
  | cons hfirst hrest ih => exact hfirst.stringInside ih

theorem lexes_space {rest : List Char} {tokens : List Token} {unfinished : Option Unfinished}
    (hrest : Lexes rest tokens unfinished) : Lexes (' ' :: rest) tokens unfinished :=
  .blank (by decide) hrest

/-- A string that was written is one token, whatever follows it. -/
theorem StringWritten.lexes {text : String} {written rest : List Char} {tokens : List Token}
    {unfinished : Option Unfinished} (h : StringWritten text written)
    (hrest : Lexes rest tokens unfinished) :
    Lexes (written ++ rest) (.string text :: tokens) unfinished := by
  obtain ⟨inner, htext, rfl⟩ := h
  rw [List.cons_append, List.append_assoc]
  exact .string htext.stringInside hrest

theorem lexes_frames {stack : List String} {frames : List (List Char)}
    (h : List.Forall₂ StringWritten stack frames) {rest : List Char} {tokens : List Token}
    {unfinished : Option Unfinished} (hrest : Lexes rest tokens unfinished) :
    Lexes ([' '].intercalate frames ++ rest) (stack.map .string ++ tokens) unfinished := by
  induction h with
  | nil => exact hrest
  | cons hframe hframes ih =>
    cases hframes with
    | nil =>
      rw [List.intercalate_singleton]
      exact hframe.lexes hrest
    | cons hsecond hmore =>
      rw [List.intercalate_cons_cons, List.append_assoc, List.append_assoc]
      exact hframe.lexes (lexes_space ih)

/-- The tag in front of an event is a symbol. -/
theorem lexes_tag (tag : String) (hne : tag.toList ≠ [])
    (htag : (tag.toList.any isDelimiter) = false) {rest : List Char} {tokens : List Token}
    {unfinished : Option Unfinished} (hrest : Lexes rest tokens unfinished) :
    Lexes ('(' :: (tag.toList ++ ' ' :: rest)) (.parenLeft :: .symbol tag :: tokens)
      unfinished := by
  have hletters : ∀ c ∈ tag.toList, isDelimiter c = false := by simpa using htag
  have hend : ∀ c ∈ (' ' :: rest).head?, isDelimiter c = true := by
    intro c hc
    cases hc
    decide
  exact .parenLeft (.symbol hne hletters hend (lexes_space hrest))

/-- An event that was written falls into the tokens of its response. -/
theorem EventWritten.lexes {response : Response} {event : List Char}
    (h : EventWritten response event) :
    ∃ tokens, EventTokens response tokens ∧ Lexes event tokens none := by
  cases h with
  | success hid =>
    have hrest := hid.lexes (.parenRight .nil)
    exact ⟨_, .success _, lexes_tag "success" (by decide) (by decide) hrest⟩
  | failure hid hmessage hstack =>
    have hframes := lexes_frames hstack (.parenRight (.parenRight .nil))
    have hrest := hid.lexes (lexes_space (hmessage.lexes (lexes_space (.parenLeft hframes))))
    exact ⟨_, .failure _ _ _, lexes_tag "failure" (by decide) (by decide) hrest⟩

/-- The tokens of an event that was written, and the datum that they are. -/
theorem EventWritten.datum {response : Response} {event : List Char}
    (h : EventWritten response event) :
    ∃ tokens datum, tokenize event = (tokens, none) ∧
      readDatum none [] tokens = .ok (datum, []) ∧ ofDatum datum = .ok response := by
  obtain ⟨tokens, hevent, hlexes⟩ := h.lexes
  obtain ⟨datum, hread, hdatum⟩ := hevent.datum
  exact ⟨tokens, datum, hlexes.tokenize_eq, hread, hdatum⟩

theorem CharWritten.lineBreak_not_mem {c : Char} {written : List Char} (h : CharWritten c written) :
    '\n' ∉ written := by
  cases h with
  | plain hquote hbackslash hbreak => simpa using Ne.symm hbreak
  | escaped hother => simpa using fun h : '\n' = c => hother (by simp [← h])
  | lineBreak => decide
  | tab => decide
  | carriageReturn => decide

theorem TextWritten.lineBreak_not_mem {text written : List Char} (h : TextWritten text written) :
    '\n' ∉ written := by
  induction h with
  | nil => simp
  | cons hfirst hrest ih => simpa using ⟨hfirst.lineBreak_not_mem, ih⟩

theorem StringWritten.lineBreak_not_mem {text : String} {written : List Char}
    (h : StringWritten text written) : '\n' ∉ written := by
  obtain ⟨inner, htext, rfl⟩ := h
  simpa using htext.lineBreak_not_mem

theorem lineBreak_not_mem_frames {stack : List String} {frames : List (List Char)}
    (h : List.Forall₂ StringWritten stack frames) : '\n' ∉ [' '].intercalate frames := by
  induction h with
  | nil => simp
  | cons hframe hframes ih =>
    cases hframes with
    | nil => simpa using hframe.lineBreak_not_mem
    | cons hsecond hmore =>
      rw [List.intercalate_cons_cons]
      simpa using ⟨hframe.lineBreak_not_mem, by simpa using ih⟩

theorem EventWritten.lineBreak_not_mem {response : Response} {event : List Char}
    (h : EventWritten response event) : '\n' ∉ event := by
  cases h with
  | success hid => simpa using hid.lineBreak_not_mem
  | failure hid hmessage hstack =>
    simpa using ⟨hid.lineBreak_not_mem, hmessage.lineBreak_not_mem, lineBreak_not_mem_frames hstack⟩

theorem EventWritten.head?_eq {response : Response} {event : List Char}
    (h : EventWritten response event) : event.head? = some '(' := by
  cases h <;> rfl

theorem EventWritten.getLast?_eq {response : Response} {event : List Char}
    (h : EventWritten response event) : event.getLast? = some ')' := by
  cases h <;> simp [List.getLast?_cons]

end RemoteEval.Response
