import Mathlib.Data.List.Induction
import RemoteEval.Proofs.Literal.Spelling

/-!
Literals from which nothing gets out. How a quote or a dollar is taken hangs on how many backslashes
stand right before it, and every spelling is such that the count starts anew behind it. So all that
can be read inside of a literal is sealed: its quotes and dollars are escaped and so is no quote
behind it, and a reader that honours backslashes takes it as one literal without interpolations.
-/
namespace RemoteEval.Literal

def backslashesAtEnd (text : List Char) : Nat := (text.reverse.takeWhile (· == '\\')).length

/-- Every quote and every dollar stands behind an odd number of backslashes, and what follows the
text does not. -/
structure Sealed (text : List Char) : Prop where
  marks : ∀ before mark after, text = before ++ mark :: after → mark = '"' ∨ mark = '$' →
    backslashesAtEnd before % 2 = 1
  ending : backslashesAtEnd text % 2 = 0

/-- Read the inside of a literal up to its closing quote, with the text behind that, as a reader
does that takes the character behind a backslash as it comes. A dollar would start an
interpolation. -/
def readInside? : Bool → List Char → Option (List Char × List Char)
  | _, [] => none
  | true, c :: text => (readInside? false text).map fun (inside, rest) => (c :: inside, rest)
  | false, c :: text =>
    if c = '"' then some ([], text)
    else if c = '$' then none
    else (readInside? (c == '\\') text).map fun (inside, rest) => (c :: inside, rest)

def readLiteral? : List Char → Option (List Char × List Char)
  | [] => none
  | c :: text => if c = '"' then readInside? false text else none

def insideOf (literal : String) : List Char := literal.toList.tail.dropLast

theorem backslashesAtEnd_concat (text : List Char) (c : Char) :
    backslashesAtEnd (text ++ [c]) = if c = '\\' then backslashesAtEnd text + 1 else 0 := by
  by_cases hc : c = '\\'
  · simp [backslashesAtEnd, hc]
  · simp [backslashesAtEnd, hc]

/-- The count starts anew behind a text that ends in an even number of backslashes. -/
theorem backslashesAtEnd_append {front : List Char} (h : backslashesAtEnd front % 2 = 0)
    (back : List Char) :
    backslashesAtEnd (front ++ back) % 2 = backslashesAtEnd back % 2 := by
  induction back using List.reverseRecOn with
  | nil =>
    rw [List.append_nil]
    exact h
  | append_singleton back c ih =>
    rw [← List.append_assoc, backslashesAtEnd_concat, backslashesAtEnd_concat]
    split
    · omega
    · rfl

theorem sealed_nil : Sealed [] where
  marks before mark after h := by simp at h
  ending := rfl

theorem Sealed.append {front back : List Char} (hfront : Sealed front) (hback : Sealed back) :
    Sealed (front ++ back) where
  marks before mark after h hmark := by
    rcases List.append_eq_append_iff.1 h with ⟨middle, rfl, hrest⟩ | ⟨middle, rfl, hrest⟩
    · rw [backslashesAtEnd_append hfront.ending]
      exact hback.marks middle mark after hrest hmark
    · cases middle with
      | nil =>
        have hstart := hback.marks [] mark after (by simpa using hrest.symm) hmark
        simp [backslashesAtEnd] at hstart
      | cons c middle =>
        obtain ⟨rfl, -⟩ := List.cons.inj hrest
        exact hfront.marks before mark middle rfl hmark
  ending := by
    rw [backslashesAtEnd_append hfront.ending]
    exact hback.ending

theorem sealed_plain {text : List Char} (h : ∀ c ∈ text, c ∉ ['\\', '"', '$']) : Sealed text where
  marks before mark after htext hmark := by
    have hplain := h mark (by simp [htext])
    rcases hmark with rfl | rfl <;> simp at hplain
  ending := by
    rcases List.eq_nil_or_concat text with rfl | ⟨front, c, rfl⟩
    · rfl
    · have hplain := h c (by simp)
      simp only [List.mem_cons, not_or] at hplain
      rw [List.concat_eq_append, backslashesAtEnd_concat, if_neg hplain.1]

/-- A backslash takes away what the character behind it means. -/
theorem sealed_pair (c : Char) : Sealed ['\\', c] where
  marks before mark after h hmark := by
    match before with
    | [] =>
      obtain ⟨rfl, -⟩ := List.cons.inj h
      simp at hmark
    | [d] =>
      obtain ⟨rfl, -⟩ := List.cons.inj h
      rfl
    | d :: e :: before => simp at h
  ending := by
    rw [show ['\\', c] = ['\\'] ++ [c] from rfl, backslashesAtEnd_concat]
    split <;> rfl

theorem isSome_hexDigit?_of_mem {digits : List Char} {value : Nat}
    (h : hexValue? digits = some value) {d : Char} (hd : d ∈ digits) :
    (hexDigit? d).isSome = true := by
  unfold hexValue? at h
  induction digits using List.reverseRecOn generalizing value with
  | nil => simp at hd
  | append_singleton digits c ih =>
    rw [List.foldlM_append] at h
    obtain ⟨front, hfront, hlast⟩ := Option.bind_eq_some_iff.1 h
    rcases List.mem_append.1 hd with hd | hd
    · exact ih hfront hd
    · obtain rfl := List.mem_singleton.1 hd
      cases hdigit : hexDigit? d with
      | none => simp [hdigit] at hlast
      | some digit => rfl

theorem CodeOf.plain {c : Char} {code : List Char} (h : CodeOf c code) :
    ∀ d ∈ code, d ∉ ['\\', '"', '$'] := by
  intro d hd hmark
  have hdigit : (hexDigit? d).isSome = true ∨ d = '+' := by
    rcases h.2 with hvalue | ⟨digits, rfl, hvalue⟩
    · exact .inl (isSome_hexDigit?_of_mem hvalue hd)
    · rcases List.mem_cons.1 hd with rfl | hd
      · exact .inr rfl
      · exact .inl (isSome_hexDigit?_of_mem hvalue hd)
  simp only [List.mem_cons, List.not_mem_nil, or_false] at hmark
  rcases hmark with rfl | rfl | rfl <;> exact absurd hdigit (by decide)

theorem Spells.isSealed {c : Char} {written : List Char} (h : Spells c written) :
    Sealed written := by
  cases h with
  | itself hplain => exact sealed_plain (List.forall_mem_singleton.2 hplain)
  | letter => exact sealed_pair _
  | code hcode => exact (sealed_pair 'u').append (sealed_plain hcode.plain)

/-- All that can be read inside of a literal is sealed. -/
theorem sealed_of_unescape {inner text : List Char} (h : unescape inner = some text) :
    Sealed inner := by
  obtain ⟨spellings, rfl, -⟩ := exists_spellings h
  clear h
  induction spellings with
  | nil => exact sealed_nil
  | cons s spellings ih => exact s.spells.isSealed.append ih

/-- A reader that has come so far takes the rest of what is sealed for the inside of its literal. -/
theorem readInside?_sealed {before inside : List Char} (h : Sealed (before ++ inside))
    (rest : List Char) :
    readInside? (backslashesAtEnd before % 2 == 1) (inside ++ '"' :: rest) =
      some (inside, rest) := by
  induction inside generalizing before with
  | nil =>
    have hending := h.ending
    rw [List.append_nil] at hending
    simp [readInside?, hending]
  | cons c inside ih =>
    have hrest := ih (show Sealed ((before ++ [c]) ++ inside) by simpa using h)
    rw [backslashesAtEnd_concat] at hrest
    by_cases hescaped : backslashesAtEnd before % 2 = 1
    · have hnext : (if c = '\\' then backslashesAtEnd before + 1 else 0) % 2 ≠ 1 := by
        split <;> omega
      rw [beq_false_of_ne hnext] at hrest
      rw [beq_iff_eq.2 hescaped, List.cons_append, readInside?, hrest]
      rfl
    · have hplain : c ≠ '"' ∧ c ≠ '$' := by
        constructor
        · rintro rfl
          exact hescaped (h.marks before '"' inside rfl (.inl rfl))
        · rintro rfl
          exact hescaped (h.marks before '$' inside rfl (.inr rfl))
      have hnext :
          ((if c = '\\' then backslashesAtEnd before + 1 else 0) % 2 == 1) = (c == '\\') := by
        by_cases hc : c = '\\'
        · simp only [hc, if_true, beq_self_eq_true, beq_iff_eq]
          omega
        · simp [hc]
      rw [hnext] at hrest
      rw [beq_false_of_ne hescaped, List.cons_append, readInside?, if_neg hplain.1,
        if_neg hplain.2, hrest]
      rfl

/-- What is sealed is read as the inside of one literal. -/
theorem Sealed.read {inside : List Char} (h : Sealed inside) (rest : List Char) :
    readLiteral? ('"' :: (inside ++ '"' :: rest)) = some (inside, rest) :=
  readInside?_sealed (show Sealed ([] ++ inside) from h) rest

/-- No literal that is read is a proper front of another one: its last quote would be escaped in the
longer one and is not in itself. -/
theorem eq_of_prefix {first second text more : String} (hfirst : unquote first = some text)
    (hsecond : unquote second = some more) (h : first.toList <+: second.toList) :
    first = second := by
  obtain ⟨short, hshort, hreadShort⟩ := unquote_eq_some_iff.1 hfirst
  obtain ⟨long, hlong, hreadLong⟩ := unquote_eq_some_iff.1 hsecond
  obtain ⟨tail, htail⟩ := h
  rcases List.eq_nil_or_concat tail with rfl | ⟨tail, last, rfl⟩
  · rw [List.append_nil] at htail
    exact String.toList_inj.1 htail
  · have hinside : long = short ++ '"' :: tail := by
      rw [hshort, hlong, List.concat_eq_append, List.cons_append, ← List.append_assoc] at htail
      have hlast := List.append_inj_left' (List.cons.inj htail).2 rfl
      rw [← hlast, List.append_assoc]
      rfl
    have hodd := (sealed_of_unescape hreadLong).marks short '"' tail hinside (.inl rfl)
    have heven := (sealed_of_unescape hreadShort).ending
    omega

theorem insideOf_quote (text : String) : insideOf (quote text) = escape text.toList := by
  rw [insideOf, toList_quote, List.tail_cons, List.dropLast_concat]

/-- A literal stands for the text that it was written for and nothing gets out of it: it holds no
control characters, its inside is sealed, and so a reader finds one literal without interpolations,
whatever follows it. Literals are written character by character. -/
theorem literals_are_sealed (text more : String) :
    unquote (quote text) = some text ∧
    (quote text).toList = '"' :: (insideOf (quote text) ++ ['"']) ∧
    (∀ c ∈ (quote text).toList, isControl c = false) ∧
    Sealed (insideOf (quote text)) ∧
    (∀ rest, readLiteral? ((quote text).toList ++ rest) = some (insideOf (quote text), rest)) ∧
    insideOf (quote (text ++ more)) = insideOf (quote text) ++ insideOf (quote more) := by
  have hsealed : Sealed (insideOf (quote text)) := by
    rw [insideOf_quote]
    exact sealed_of_unescape (unescape_escape text.toList)
  have hquotes : (quote text).toList = '"' :: (insideOf (quote text) ++ ['"']) := by
    rw [insideOf_quote, toList_quote]
  refine ⟨unquote_quote text, hquotes, fun c => isControl_of_mem_quote, hsealed, ?_, ?_⟩
  · intro rest
    rw [hquotes, List.cons_append, List.append_assoc]
    exact hsealed.read rest
  · simp only [insideOf_quote, String.toList_append, escape, List.flatMap_append]

/-- All three marks, and a control character whose code is followed by a further digit. -/
theorem literals_are_sealed_before_digit :
    let text := "\\\"$\x1bf"
    (quote text).toList = "\"\\\\\\\"\\$\\u001bf\"".toList ∧
      unquote (quote text) = some text ∧
      '\\' ∈ (quote text).toList ∧ isControl '\\' = false ∧
      readLiteral? ((quote text).toList ++ ['"', '$']) =
        some ("\\\\\\\"\\$\\u001bf".toList, ['"', '$']) := by
  intro text
  obtain ⟨hread, -, hvisible, -, hone, -⟩ := literals_are_sealed text ""
  have hliteral : (quote text).toList = "\"\\\\\\\"\\$\\u001bf\"".toList := by
    rw [toList_quote]
    decide
  have hmem : '\\' ∈ (quote text).toList := by
    rw [hliteral]
    decide
  refine ⟨hliteral, hread, hmem, hvisible _ hmem, (hone ['"', '$']).trans ?_⟩
  rw [insideOf, hliteral]
  decide

end RemoteEval.Literal
