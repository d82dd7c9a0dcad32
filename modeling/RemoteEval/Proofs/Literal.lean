import Mathlib.Data.Nat.Digits.Defs
import RemoteEval.Literal
import RemoteEval.Proofs.Text.Split

/-!
Reading literals back. A character is written as itself, as an escape of one letter, or by its code
point in four hexadecimal digits; each of these is read as the character it was written for. So
every text is the one that its literal stands for, and a literal holds no control character. Nor
does it hold a mark of plain characters that its text does not hold.
-/
namespace RemoteEval.Literal

open Text

theorem hexDigit?_digitChar : ∀ n < 16, hexDigit? (Nat.digitChar n) = some n := by decide

/-- Hexadecimal digits, of which the last is the least, stand for a number digit by digit. -/
theorem hexValue?_concat {digits : List Char} {c : Char} {value digit : Nat}
    (hvalue : hexValue? digits = some value) (hdigit : hexDigit? c = some digit) :
    hexValue? (digits ++ [c]) = some (value * 16 + digit) := by
  unfold hexValue? at hvalue ⊢
  simp [List.foldlM_append, hvalue, hdigit]

theorem hexValue?_toDigits (n : Nat) : hexValue? (Nat.toDigits 16 n) = some n := by
  induction n using Nat.strong_induction_on with
  | h n ih =>
    have hlast := hexDigit?_digitChar (n % 16) (Nat.mod_lt n (by decide))
    by_cases hsmall : n < 16
    · rw [Nat.mod_eq_of_lt hsmall] at hlast
      rw [Nat.toDigits_of_lt_base hsmall]
      simpa using hexValue?_concat (show hexValue? [] = some 0 from rfl) hlast
    · have hfront := ih (n / 16) (by omega)
      rw [Nat.toDigits_of_base_le (by decide) (Nat.le_of_not_lt hsmall),
        hexValue?_concat hfront hlast, Nat.div_add_mod']

theorem hexValue?_zeros (count : Nat) (digits : List Char) :
    hexValue? (List.replicate count '0' ++ digits) = hexValue? digits := by
  induction count with
  | zero => rfl
  | succ count ih => exact ih

theorem exists_digit_of_mem_toDigits {n : Nat} {c : Char} (h : c ∈ Nat.toDigits 16 n) :
    ∃ digit < 16, c = Nat.digitChar digit := by
  induction n using Nat.strong_induction_on with
  | h n ih =>
    by_cases hsmall : n < 16
    · rw [Nat.toDigits_of_lt_base hsmall, List.mem_singleton] at h
      exact ⟨n, hsmall, h⟩
    · rw [Nat.toDigits_of_base_le (by decide) (Nat.le_of_not_lt hsmall), List.mem_append,
        List.mem_singleton] at h
      rcases h with hfront | hlast
      · exact ih (n / 16) (by omega) hfront
      · exact ⟨n % 16, Nat.mod_lt n (by decide), hlast⟩

/-- Every character of a number that is filled up with zeros is a digit. -/
theorem exists_digit_of_mem_zeros {count n : Nat} {c : Char}
    (h : c ∈ List.replicate count '0' ++ Nat.toDigits 16 n) :
    ∃ digit < 16, c = Nat.digitChar digit := by
  rcases List.mem_append.1 h with hzero | hdigit
  · exact ⟨0, by decide, List.eq_of_mem_replicate hzero⟩
  · exact exists_digit_of_mem_toDigits hdigit

theorem length_fourDigits {n : Nat} (h : n < 0x10000) : (fourDigits n).length = 4 := by
  have hlength := (Nat.length_toDigits_le_iff (b := 16) (k := 4) (by decide) (by decide)).2 h
  rw [fourDigits, List.length_append, List.length_replicate]
  omega

/-- The code point of a character, written in four digits, is read as that character. -/
theorem codePoint?_fourDigits {c : Char} (h : c.toNat < 0x10000) :
    ∃ w x y z, fourDigits c.toNat = [w, x, y, z] ∧ codePoint? w x y z = some c := by
  obtain ⟨w, x, y, z, hdigits⟩ : ∃ w x y z, fourDigits c.toNat = [w, x, y, z] := by
    match fourDigits c.toNat, length_fourDigits h with
    | [w, x, y, z], _ => exact ⟨w, x, y, z, rfl⟩
  refine ⟨w, x, y, z, hdigits, ?_⟩
  have hplus : w ≠ '+' := by
    have hw : w ∈ fourDigits c.toNat := by simp [hdigits]
    obtain ⟨digit, -, rfl⟩ := exists_digit_of_mem_zeros hw
    exact Nat.digitChar_ne '+' rfl
  have hvalue : hexValue? [w, x, y, z] = some c.toNat := by
    rw [← hdigits]
    exact (hexValue?_zeros _ _).trans (hexValue?_toDigits c.toNat)
  have hvalid : c.toNat.isValidChar := c.valid
  rw [codePoint?, if_neg hplus, hvalue]
  exact dif_pos hvalid

/-- The three ways to write a character. -/
theorem escapeChar_cases (c : Char) :
    (escapeChar c = [c] ∧ c ∉ ['\\', '"', '$'] ∧ isControl c = false) ∨
    (∃ letter, escapeChar c = ['\\', letter] ∧ escaped? letter = some c) ∨
    isControl c = true ∧ escapeChar c = '\\' :: 'u' :: fourDigits c.toNat := by
  by_cases hspecial : c ∈ ['\\', '"', '$', '\n', '\r', '\t']
  · simp only [List.mem_cons, List.not_mem_nil, or_false] at hspecial
    rcases hspecial with rfl | rfl | rfl | rfl | rfl | rfl
    all_goals exact .inr (.inl ⟨_, rfl, rfl⟩)
  · simp only [List.mem_cons, List.not_mem_nil, or_false, not_or] at hspecial
    have hwritten : escapeChar c =
        if isControl c then '\\' :: 'u' :: fourDigits c.toNat else [c] := by
      simp [escapeChar, hspecial]
    cases hcontrol : isControl c with
    | false =>
      refine .inl ⟨by simp [hwritten, hcontrol], by simp [hspecial], rfl⟩
    | true => exact .inr (.inr ⟨rfl, by simp [hwritten, hcontrol]⟩)

theorem mem_of_escaped? {letter c : Char} (h : escaped? letter = some c) :
    letter ∈ ['n', 'r', 't', '\\', '"', '$'] := by
  by_contra hletter
  simp only [List.mem_cons, List.not_mem_nil, or_false, not_or] at hletter
  simp [escaped?, hletter] at h

theorem unescape_plain {c : Char} (h : c ∉ ['\\', '"', '$']) (rest : List Char) :
    unescape (c :: rest) = (unescape rest).map (c :: ·) := by
  simp only [List.mem_cons, List.not_mem_nil, or_false, not_or] at h
  rw [unescape.eq_def]
  simp only [if_neg h.1, if_neg (not_or.2 h.2)]

theorem unescape_letter {letter c : Char} (h : escaped? letter = some c) (rest : List Char) :
    unescape ('\\' :: letter :: rest) = (unescape rest).map (c :: ·) := by
  have hu : letter ≠ 'u' := by
    rintro rfl
    cases h
  rw [unescape.eq_def]
  simp only [if_true, if_neg hu, h, Option.bind_some]

theorem unescape_code {w x y z c : Char} (h : codePoint? w x y z = some c) (rest : List Char) :
    unescape ('\\' :: 'u' :: w :: x :: y :: z :: rest) = (unescape rest).map (c :: ·) := by
  rw [unescape.eq_def]
  simp only [if_true, h, Option.bind_some]

theorem unescape_escapeChar (c : Char) (rest : List Char) :
    unescape (escapeChar c ++ rest) = (unescape rest).map (c :: ·) := by
  rcases escapeChar_cases c with ⟨hwritten, hplain, -⟩ | ⟨letter, hwritten, hletter⟩ |
    ⟨hcontrol, hwritten⟩
  · rw [hwritten]
    exact unescape_plain hplain rest
  · rw [hwritten]
    exact unescape_letter hletter rest
  · have hsmall : c.toNat < 0x10000 := by
      simp only [isControl, Bool.or_eq_true, Bool.and_eq_true, decide_eq_true_eq] at hcontrol
      omega
    obtain ⟨w, x, y, z, hdigits, hread⟩ := codePoint?_fourDigits hsmall
    rw [hwritten, hdigits]
    exact unescape_code hread rest

theorem unescape_escape (text : List Char) : unescape (escape text) = some text := by
  induction text with
  | nil => rfl
  | cons c text ih =>
    rw [escape, List.flatMap_cons, unescape_escapeChar]
    change (unescape (escape text)).map (c :: ·) = _
    rw [ih]
    rfl

theorem toList_quote (text : String) : (quote text).toList = '"' :: (escape text.toList ++ ['"']) :=
  String.toList_ofList

/-- A literal stands for the text that it was written for. -/
theorem unquote_quote (text : String) : unquote (quote text) = some text := by
  rw [unquote, toList_quote]
  simp only [List.getLast?_concat, List.dropLast_concat, unescape_escape, Option.map_some,
    String.ofList_toList]

theorem isControl_digitChar : ∀ n < 16, isControl (Nat.digitChar n) = false := by decide

theorem isControl_of_all {text : List Char} (h : (text.all fun c => !isControl c) = true) {c : Char}
    (hc : c ∈ text) : isControl c = false := by
  simpa using List.all_eq_true.1 h c hc

theorem isControl_of_mem_escapeChar {c d : Char} (h : d ∈ escapeChar c) : isControl d = false := by
  rcases escapeChar_cases c with ⟨hwritten, -, hvisible⟩ | ⟨letter, hwritten, hletter⟩ |
    ⟨-, hwritten⟩
  · rw [hwritten, List.mem_singleton] at h
    exact h ▸ hvisible
  · have hvisible : (['n', 'r', 't', '\\', '"', '$'].all fun d => !isControl d) = true := rfl
    rw [hwritten, List.mem_cons, List.mem_singleton] at h
    rcases h with rfl | rfl
    · rfl
    · exact isControl_of_all hvisible (mem_of_escaped? hletter)
  · rw [hwritten, List.mem_cons, List.mem_cons] at h
    rcases h with rfl | rfl | hdigit
    · rfl
    · rfl
    · obtain ⟨digit, hlt, rfl⟩ := exists_digit_of_mem_zeros hdigit
      exact isControl_digitChar digit hlt

/-- A literal is one line of visible characters. -/
theorem isControl_of_mem_quote {text : String} {c : Char} (h : c ∈ (quote text).toList) :
    isControl c = false := by
  rw [toList_quote, List.mem_cons, List.mem_append, List.mem_singleton] at h
  rcases h with rfl | hinside | rfl
  · rfl
  · obtain ⟨d, -, hd⟩ := List.mem_flatMap.1 hinside
    exact isControl_of_mem_escapeChar hd
  · rfl

theorem comma_not_mem_escapeChar {c : Char} (hc : c ≠ ',') : ',' ∉ escapeChar c := by
  rcases escapeChar_cases c with ⟨hwritten, -, -⟩ | ⟨letter, hwritten, hletter⟩ |
    ⟨-, hwritten⟩
  · simpa [hwritten] using Ne.symm hc
  · have hother : ',' ≠ letter := by
      rintro rfl
      cases hletter
    simpa [hwritten] using hother
  · rw [hwritten, List.mem_cons, List.mem_cons]
    rintro (h | h | hdigit)
    · cases h
    · cases h
    · obtain ⟨digit, -, heq⟩ := exists_digit_of_mem_zeros hdigit
      exact Nat.digitChar_ne ',' rfl heq.symm

/-- A mark without quotes and backslashes at the start of what is written inside of a literal
stands at the start of the text. -/
theorem prefix_of_escape {mark text : List Char} {rest : List Char} (hquote : '"' ∉ mark)
    (hbackslash : '\\' ∉ mark) (h : mark <+: escape text ++ '"' :: rest) : mark <+: text := by
  induction mark generalizing text with
  | nil => exact List.nil_prefix
  | cons m mark ih =>
    simp only [List.mem_cons, not_or] at hquote hbackslash
    cases text with
    | nil => exact absurd (List.cons_prefix_cons.1 h).1.symm hquote.1
    | cons c text =>
      rw [escape, List.flatMap_cons, List.append_assoc] at h
      -- An escape starts with a backslash, and the mark does not.
      have hescape (tail : List Char) (hwritten : escapeChar c = '\\' :: tail) : False := by
        rw [hwritten, List.cons_append] at h
        exact hbackslash.1 (List.cons_prefix_cons.1 h).1.symm
      rcases escapeChar_cases c with ⟨hwritten, -, -⟩ | ⟨letter, hwritten, -⟩ | ⟨-, hwritten⟩
      · rw [hwritten, List.singleton_append, List.cons_prefix_cons] at h
        exact List.cons_prefix_cons.2 ⟨h.1, ih hquote.2 hbackslash.2 h.2⟩
      · exact (hescape _ hwritten).elim
      · exact (hescape _ hwritten).elim

/-- A mark that does not occur in a text does not occur in its literal. -/
theorem breakAt?_escape {mark text rest before after : List Char}
    (hmark : ¬ ',' :: mark <:+: text) (hquote : '"' ∉ ',' :: mark) (hbackslash : '\\' ∉ ',' :: mark)
    (hrest : breakAt? (',' :: mark) rest = some (before, after)) :
    breakAt? (',' :: mark) (escape text ++ '"' :: rest) =
      some (escape text ++ '"' :: before, after) := by
  induction text with
  | nil => exact breakAt?_cons_of_ne (by decide) hrest
  | cons c text ih =>
    rw [List.infix_cons_iff, not_or] at hmark
    rw [escape, List.flatMap_cons, List.append_assoc, List.append_assoc]
    by_cases hc : c = ','
    · subst hc
      refine breakAt?_cons ?_ (ih hmark.2)
      intro hstart
      exact hmark.1 (prefix_of_escape hquote hbackslash hstart)
    · exact breakAt?_word (comma_not_mem_escapeChar hc) (ih hmark.2)

end RemoteEval.Literal
