import Mathlib.Data.List.Basic
import RemoteEval.Proofs.Literal

/-!
How literals may be spelled. The reader takes a character from more spellings than the one that is
written: it takes a control character as it is, and a code point for any character, with digits of
either case or a plus sign in front. A literal is read exactly if it is put together from such
spellings, and it is the one that is written exactly if none of these loose ones is among them.
-/
namespace RemoteEval.Literal

def letters : List (Char × Char) :=
  [('\\', '\\'), ('"', '"'), ('$', '$'), ('\n', 'n'), ('\r', 'r'), ('\t', 't')]

/-- Four characters give the code point of a character: hexadecimal digits of either case, the first
of which may be replaced by a plus sign. -/
def CodeOf (c : Char) (code : List Char) : Prop :=
  code.length = 4 ∧ (hexValue? code = some c.toNat ∨
    ∃ digits, code = '+' :: digits ∧ hexValue? digits = some c.toNat)

inductive Spells : Char → List Char → Prop where
  | itself {c : Char} (hplain : c ∉ ['\\', '"', '$']) : Spells c [c]
  | letter {c letter : Char} (hletter : (c, letter) ∈ letters) : Spells c ['\\', letter]
  | code {c : Char} {code : List Char} (hcode : CodeOf c code) : Spells c ('\\' :: 'u' :: code)

/-- The spellings that are read but not written: a control character as it is, and a code point that
is needless or has other digits than the written one. -/
inductive Loose : Char → List Char → Prop where
  | bare {c : Char} (hcontrol : isControl c = true) : Loose c [c]
  | needless {c : Char} {code : List Char} (hother : isControl c = false ∨ c ∈ ['\n', '\r', '\t']) :
    Loose c ('\\' :: 'u' :: code)
  | otherDigits {c : Char} {code : List Char} (hdigits : code ≠ fourDigits c.toNat) :
    Loose c ('\\' :: 'u' :: code)

structure Spelling where
  char : Char
  written : List Char
  spells : Spells char written

def textOf (spellings : List Spelling) : String := String.ofList (spellings.map Spelling.char)

def literalOf (spellings : List Spelling) : String :=
  String.ofList ('"' :: (spellings.flatMap Spelling.written ++ ['"']))

theorem escaped?_eq_some_iff {c letter : Char} :
    escaped? letter = some c ↔ (c, letter) ∈ letters := by
  constructor
  · intro h
    have hletter := mem_of_escaped? h
    simp only [List.mem_cons, List.not_mem_nil, or_false] at hletter
    rcases hletter with rfl | rfl | rfl | rfl | rfl | rfl
    all_goals
      cases h
      decide
  · intro h
    simp only [letters, List.mem_cons, Prod.mk.injEq, List.not_mem_nil, or_false] at h
    rcases h with ⟨rfl, rfl⟩ | ⟨rfl, rfl⟩ | ⟨rfl, rfl⟩ | ⟨rfl, rfl⟩ | ⟨rfl, rfl⟩ | ⟨rfl, rfl⟩
    all_goals rfl

/-- Signs are no digits. -/
theorem hexValue?_plus (digits : List Char) : hexValue? ('+' :: digits) = none := rfl

theorem codePoint?_eq_some_iff {w x y z c : Char} :
    codePoint? w x y z = some c ↔ CodeOf c [w, x, y, z] := by
  have hchar (value : Option Nat) :
      (value.bind fun n => if h : n.isValidChar then some (Char.ofNatAux n h) else none) = some c ↔
        value = some c.toNat := by
    cases value with
    | none => exact iff_of_false nofun nofun
    | some n =>
      rw [Option.bind_some, Option.some_inj]
      constructor
      · intro h
        by_cases hvalid : n.isValidChar
        · cases (dif_pos hvalid).symm.trans h
          rfl
        · cases (dif_neg hvalid).symm.trans h
      · rintro rfl
        exact dif_pos c.valid
  rw [codePoint?, hchar]
  by_cases hplus : w = '+'
  · subst hplus
    simp [CodeOf, hexValue?_plus]
  · simp [CodeOf, hplus]

theorem exists_spellings_cons {c : Char} {written rest text : List Char}
    (hspells : Spells c written) (hrest : ∃ spellings : List Spelling,
      rest = spellings.flatMap Spelling.written ∧ text = spellings.map Spelling.char) :
    ∃ spellings : List Spelling, written ++ rest = spellings.flatMap Spelling.written ∧
      c :: text = spellings.map Spelling.char := by
  obtain ⟨spellings, rfl, rfl⟩ := hrest
  exact ⟨⟨c, written, hspells⟩ :: spellings, rfl, rfl⟩

/-- What is read inside of a literal is put together from spellings. -/
theorem exists_spellings {inner text : List Char} (h : unescape inner = some text) :
    ∃ spellings : List Spelling,
      inner = spellings.flatMap Spelling.written ∧ text = spellings.map Spelling.char := by
  fun_induction unescape inner generalizing text with
  | case1 =>
    cases h
    exact ⟨[], rfl, rfl⟩
  | case2 => cases h
  | case3 w x y z rest ih =>
    obtain ⟨c, hcode, hrest⟩ := Option.bind_eq_some_iff.1 h
    obtain ⟨text, htext, rfl⟩ := Option.map_eq_some_iff.1 hrest
    exact exists_spellings_cons (.code (codePoint?_eq_some_iff.1 hcode)) (ih htext)
  | case4 => cases h
  | case5 letter rest hletter ih =>
    obtain ⟨c, hescaped, hrest⟩ := Option.bind_eq_some_iff.1 h
    obtain ⟨text, htext, rfl⟩ := Option.map_eq_some_iff.1 hrest
    exact exists_spellings_cons (.letter (escaped?_eq_some_iff.1 hescaped)) (ih htext)
  | case6 => cases h
  | case7 c rest hbackslash hmark ih =>
    obtain ⟨text, htext, rfl⟩ := Option.map_eq_some_iff.1 h
    rw [not_or] at hmark
    exact exists_spellings_cons (.itself (by simp [hbackslash, hmark])) (ih htext)

theorem unescape_spelling (s : Spelling) (rest : List Char) :
    unescape (s.written ++ rest) = (unescape rest).map (s.char :: ·) := by
  obtain ⟨c, written, hspells⟩ := s
  cases hspells with
  | itself hplain => exact unescape_plain hplain rest
  | letter hletter => exact unescape_letter (escaped?_eq_some_iff.2 hletter) rest
  | code hcode =>
    obtain ⟨w, x, y, z, rfl⟩ := List.length_eq_four.1 hcode.1
    exact unescape_code (codePoint?_eq_some_iff.2 hcode) rest

theorem unescape_spellings (spellings : List Spelling) :
    unescape (spellings.flatMap Spelling.written) = some (spellings.map Spelling.char) := by
  induction spellings with
  | nil => rfl
  | cons s spellings ih =>
    rw [List.flatMap_cons, unescape_spelling, ih]
    rfl

theorem toList_literalOf (spellings : List Spelling) : (literalOf spellings).toList =
    '"' :: (spellings.flatMap Spelling.written ++ ['"']) := String.toList_ofList

/-- What is read stands between two quotes. -/
theorem unquote_eq_some_iff {literal text : String} : unquote literal = some text ↔
    ∃ inner, literal.toList = '"' :: (inner ++ ['"']) ∧ unescape inner = some text.toList := by
  constructor
  · intro h
    unfold unquote at h
    split at h
    · next rest hliteral =>
      split at h
      · next hlast =>
        obtain ⟨inner, rfl⟩ := List.getLast?_eq_some_iff.1 hlast
        rw [List.dropLast_concat] at h
        obtain ⟨read, hread, rfl⟩ := Option.map_eq_some_iff.1 h
        exact ⟨inner, hliteral, by rwa [String.toList_ofList]⟩
      · cases h
    · cases h
  · rintro ⟨inner, hliteral, hread⟩
    rw [unquote, hliteral]
    simp only [List.getLast?_concat, List.dropLast_concat, hread, Option.map_some,
      String.ofList_toList]

/-- A literal is read exactly if it is put together from spellings. -/
theorem unquote_eq_some_iff_exists_spellings {literal text : String} :
    unquote literal = some text ↔
      ∃ spellings, literal = literalOf spellings ∧ text = textOf spellings := by
  rw [unquote_eq_some_iff]
  constructor
  · rintro ⟨inner, hliteral, hread⟩
    obtain ⟨spellings, rfl, htext⟩ := exists_spellings hread
    refine ⟨spellings, ?_, ?_⟩
    · rw [literalOf, ← hliteral, String.ofList_toList]
    · rw [textOf, ← htext, String.ofList_toList]
  · rintro ⟨spellings, rfl, rfl⟩
    exact ⟨_, toList_literalOf spellings, by rw [unescape_spellings, textOf, String.toList_ofList]⟩

/-- The characters with an escape of one letter are the three marks and the three controls. -/
theorem letters_cases {c letter : Char} (h : (c, letter) ∈ letters) :
    letter ≠ 'u' ∧ escapeChar c = ['\\', letter] ∧
      (c ∈ ['\\', '"', '$'] ∧ isControl c = false ∨
        c ∈ ['\n', '\r', '\t'] ∧ isControl c = true) := by
  simp only [letters, List.mem_cons, Prod.mk.injEq, List.not_mem_nil, or_false] at h
  rcases h with ⟨rfl, rfl⟩ | ⟨rfl, rfl⟩ | ⟨rfl, rfl⟩ | ⟨rfl, rfl⟩ | ⟨rfl, rfl⟩ | ⟨rfl, rfl⟩
  all_goals decide

theorem not_loose_escapeChar (c : Char) : ¬ Loose c (escapeChar c) := by
  intro h
  rcases escapeChar_cases c with ⟨hwritten, -, hvisible⟩ | ⟨letter, hwritten, hletter⟩ |
    ⟨hcontrol, hwritten⟩
  · rw [hwritten] at h
    cases h with
    | bare hcontrol => simp [hvisible] at hcontrol
  · have hu := (letters_cases (escaped?_eq_some_iff.1 hletter)).1
    rw [hwritten] at h
    cases h with
    | needless => exact hu rfl
    | otherDigits => exact hu rfl
  · rw [hwritten] at h
    cases h with
    | otherDigits hdigits => exact hdigits rfl
    | needless hother =>
      rcases hother with hvisible | hletter
      · simp [hvisible] at hcontrol
      · simp only [List.mem_cons, List.not_mem_nil, or_false] at hletter
        rcases hletter with rfl | rfl | rfl <;> cases hwritten

/-- What may be spelled and is not loose is written. -/
theorem Spells.eq_escapeChar {c : Char} {written : List Char} (h : Spells c written)
    (hstrict : ¬ Loose c written) : written = escapeChar c := by
  cases h with
  | letter hletter => exact (letters_cases hletter).2.1.symm
  | itself hplain =>
    rcases escapeChar_cases c with ⟨hwritten, -, -⟩ | ⟨letter, -, hletter⟩ | ⟨hcontrol, -⟩
    · exact hwritten.symm
    · rcases (letters_cases (escaped?_eq_some_iff.1 hletter)).2.2 with ⟨hmark, -⟩ | ⟨-, hcontrol⟩
      · exact absurd hmark hplain
      · exact absurd (.bare hcontrol) hstrict
    · exact absurd (.bare hcontrol) hstrict
  | @code code hcode =>
    rcases escapeChar_cases c with ⟨-, -, hvisible⟩ | ⟨letter, -, hletter⟩ | ⟨-, hwritten⟩
    · exact absurd (.needless (.inl hvisible)) hstrict
    · rcases (letters_cases (escaped?_eq_some_iff.1 hletter)).2.2 with ⟨-, hvisible⟩ | ⟨hcontrol, -⟩
      · exact absurd (.needless (.inl hvisible)) hstrict
      · exact absurd (.needless (.inr hcontrol)) hstrict
    · by_cases hdigits : code = fourDigits c.toNat
      · rw [hwritten, hdigits]
      · exact absurd (.otherDigits hdigits) hstrict

theorem spells_escapeChar (c : Char) : Spells c (escapeChar c) := by
  rcases escapeChar_cases c with ⟨hwritten, hplain, -⟩ | ⟨letter, hwritten, hletter⟩ |
    ⟨hcontrol, hwritten⟩
  · rw [hwritten]
    exact .itself hplain
  · rw [hwritten]
    exact .letter (escaped?_eq_some_iff.1 hletter)
  · have hsmall : c.toNat < 0x10000 := by
      simp only [isControl, Bool.or_eq_true, Bool.and_eq_true, decide_eq_true_eq] at hcontrol
      omega
    obtain ⟨w, x, y, z, hdigits, hread⟩ := codePoint?_fourDigits hsmall
    rw [hwritten, hdigits]
    exact .code (codePoint?_eq_some_iff.1 hread)

def spellingLength (text : List Char) : Nat :=
  if text.head? ≠ some '\\' then 1 else if text[1]? = some 'u' then 6 else 2

theorem Spells.length_eq {c : Char} {written : List Char} (h : Spells c written)
    (rest : List Char) : written.length = spellingLength (written ++ rest) := by
  cases h with
  | itself hplain =>
    simp only [List.mem_cons, not_or] at hplain
    simp [spellingLength, hplain]
  | letter hletter => simp [spellingLength, (letters_cases hletter).1]
  | code hcode => simp [spellingLength, hcode.1]

/-- No spelling is a front of another one. -/
theorem Spells.eq_of_append_eq {c d : Char} {first second rest tail : List Char}
    (hfirst : Spells c first) (hsecond : Spells d second) (h : first ++ rest = second ++ tail) :
    first = second ∧ rest = tail := by
  have hlength : first.length = second.length := by
    rw [hfirst.length_eq rest, hsecond.length_eq tail, h]
  exact List.append_inj h hlength

theorem flatMap_written_eq_escape_iff (spellings : List Spelling) :
    spellings.flatMap Spelling.written = escape (spellings.map Spelling.char) ↔
      ∀ s ∈ spellings, ¬ Loose s.char s.written := by
  induction spellings with
  | nil => simp [escape]
  | cons s spellings ih =>
    rw [List.flatMap_cons, List.map_cons, escape, List.flatMap_cons, List.forall_mem_cons, ← ih]
    constructor
    · intro h
      obtain ⟨hfirst, hrest⟩ := s.spells.eq_of_append_eq (spells_escapeChar s.char) h
      exact ⟨hfirst ▸ not_loose_escapeChar s.char, hrest⟩
    · rintro ⟨hstrict, hrest⟩
      rw [s.spells.eq_escapeChar hstrict, hrest]
      rfl

/-- A literal that is put together from spellings is the written one exactly if none is loose. -/
theorem literalOf_eq_quote_iff (spellings : List Spelling) :
    literalOf spellings = quote (textOf spellings) ↔
      ∀ s ∈ spellings, ¬ Loose s.char s.written := by
  rw [← flatMap_written_eq_escape_iff, ← String.toList_inj, toList_literalOf, toList_quote, textOf,
    String.toList_ofList]
  simp

/-- A literal is read as a text exactly if it is put together from spellings of its characters, and
it is then the one that is written for the text exactly if none of them is loose. -/
theorem literals_are_read_by_spelling (literal text : String) :
    (unquote literal = some text ↔
      ∃ spellings, literal = literalOf spellings ∧ text = textOf spellings) ∧
    ∀ spellings, literal = literalOf spellings → text = textOf spellings →
      (literal = quote text ↔ ∀ s ∈ spellings, ¬ Loose s.char s.written) := by
  refine ⟨unquote_eq_some_iff_exists_spellings, ?_⟩
  rintro spellings rfl rfl
  exact literalOf_eq_quote_iff spellings

/-- A line break as it is written, and a control character whose code has a sign. -/
theorem literals_are_read_by_spelling_with_sign :
    let lineBreak : Spelling := ⟨'\n', ['\\', 'n'], .letter (by decide)⟩
    let signed : Spelling := ⟨'\x1b', ['\\', 'u', '+', '0', '1', 'b'],
      .code ⟨rfl, .inr ⟨['0', '1', 'b'], rfl, rfl⟩⟩⟩
    let spellings := [lineBreak, signed]
    let literal := "\"\\n\\u+01b\""
    literal = literalOf spellings ∧ "\n\x1b" = textOf spellings ∧
      unquote literal = some "\n\x1b" ∧ literal ≠ quote "\n\x1b" := by
  intro lineBreak signed spellings literal
  have hliteral : literal = literalOf spellings := rfl
  have htext : "\n\x1b" = textOf spellings := rfl
  obtain ⟨hread, hwritten⟩ := literals_are_read_by_spelling literal "\n\x1b"
  refine ⟨hliteral, htext, hread.2 ⟨spellings, hliteral, htext⟩, ?_⟩
  rw [ne_eq, hwritten spellings hliteral htext]
  intro hstrict
  have hloose : Loose signed.char signed.written := .otherDigits (by decide)
  exact hstrict signed (by simp [spellings]) hloose

/-- The code point of a letter is read as the letter, which is written as itself. -/
theorem needless_code_is_read :
    ¬ ∀ literal text, unquote literal = some text → literal = quote text := by
  intro h
  have hread : unquote "\"\\u0041\"" = some "A" :=
    unquote_eq_some_iff.2 ⟨"\\u0041".toList, rfl, rfl⟩
  have hwritten := congrArg String.toList (h _ _ hread)
  rw [toList_quote] at hwritten
  exact absurd hwritten (by decide)

end RemoteEval.Literal
