import Mathlib.Data.List.Infix
import RemoteEval.Proofs.Response.Tokens
import RemoteEval.Response.Basic

/-!
How deep lists nest. Tokens are one list if the list that the first one opens is closed by the last
one and by none before. The reader takes such tokens for one datum, unless they nest deeper than
its bound; how deep they nest is seen from the parentheses of the text that stand outside of
strings.
-/
namespace RemoteEval.Response

open Text

/-- The last token, and none before, closes all of so many open lists. -/
def Closes : Nat → List Token → Prop
  | _, [] => False
  | depth, .parenLeft :: rest => Closes (depth + 1) rest
  | depth + 2, .parenRight :: rest => Closes (depth + 1) rest
  | _, .parenRight :: rest => rest = []
  | depth, .string _ :: rest => Closes depth rest
  | depth, .symbol _ :: rest => Closes depth rest

structure OneList (tokens : List Token) : Prop where
  first : tokens.head? = some .parenLeft
  balanced : tokens.count .parenLeft = tokens.count .parenRight
  opened : ∀ start, start <+: tokens → start ≠ [] → start ≠ tokens →
    start.count .parenRight < start.count .parenLeft

inductive Place where
  | outside
  | string
  | escape

def Place.parens : Place → List Char → List Char
  | _, [] => []
  | .outside, c :: text =>
    if c = '"' then Place.string.parens text
    else if c = '(' ∨ c = ')' then c :: Place.outside.parens text
    else Place.outside.parens text
  | .string, c :: text =>
    if c = '"' then Place.outside.parens text
    else if c = '\\' then Place.escape.parens text
    else Place.string.parens text
  | .escape, _ :: text => Place.string.parens text

/-- Some start of the parentheses opens over `bound` more lists, `depth` open ones included, than
it closes. -/
def Exceeds (bound depth : Nat) (parens : List Char) : Prop :=
  ∃ start, start <+: parens ∧ start.count ')' + bound < depth + start.count '('

def NestsBeyond (bound : Nat) (text : List Char) : Prop := Exceeds bound 0 (Place.outside.parens text)

theorem exceeds_nil (bound depth : Nat) : Exceeds bound depth [] ↔ bound < depth := by
  simp [Exceeds, List.prefix_nil]

theorem exceeds_cons (bound depth : Nat) (paren : Char) (parens : List Char) :
    Exceeds bound depth (paren :: parens) ↔
      bound < depth ∨ ∃ start, start <+: parens ∧
        (paren :: start).count ')' + bound < depth + (paren :: start).count '(' := by
  constructor
  · rintro ⟨start, hstart, hcount⟩
    rcases List.prefix_cons_iff.1 hstart with rfl | ⟨rest, rfl, hrest⟩
    · exact .inl (by simpa using hcount)
    · exact .inr ⟨rest, hrest, hcount⟩
  · rintro (hdepth | ⟨rest, hrest, hcount⟩)
    · exact ⟨[], List.nil_prefix, by simpa using hdepth⟩
    · exact ⟨paren :: rest, List.prefix_cons_iff.2 (.inr ⟨rest, rfl, hrest⟩), hcount⟩

theorem exceeds_parenLeft (bound depth : Nat) (parens : List Char) :
    Exceeds bound depth ('(' :: parens) ↔ bound < depth ∨ Exceeds bound (depth + 1) parens := by
  rw [exceeds_cons]
  refine or_congr_right (exists_congr fun start => and_congr_right fun _ => ?_)
  rw [List.count_cons_self, List.count_cons_of_ne (by decide)]
  omega

theorem exceeds_parenRight (bound depth : Nat) (parens : List Char) :
    Exceeds bound (depth + 1) (')' :: parens) ↔
      bound < depth + 1 ∨ Exceeds bound depth parens := by
  rw [exceeds_cons]
  refine or_congr_right (exists_congr fun start => and_congr_right fun _ => ?_)
  rw [List.count_cons_self, List.count_cons_of_ne (by decide)]
  omega

def Token.paren? : Token → Option Char
  | .parenLeft => some '('
  | .parenRight => some ')'
  | .string _ => none
  | .symbol _ => none

def parensOf (tokens : List Token) : List Char := tokens.filterMap Token.paren?

theorem parensOf_parenLeft (rest : List Token) :
    parensOf (.parenLeft :: rest) = '(' :: parensOf rest := rfl

theorem parensOf_parenRight (rest : List Token) :
    parensOf (.parenRight :: rest) = ')' :: parensOf rest := rfl

def Inside.place : Inside → Place
  | .nothing => .outside
  | .symbol _ => .outside
  | .string _ => .string
  | .escape _ => .escape

theorem ne_of_isBlank {c d : Char} (hc : isBlank c = true) (hd : isBlank d = false) : c ≠ d := by
  rintro rfl
  simp [hc] at hd

theorem parens_blank {c : Char} (hc : isBlank c = true) (text : List Char) :
    Place.outside.parens (c :: text) = Place.outside.parens text := by
  have hquote : c ≠ '"' := ne_of_isBlank hc (by decide)
  have hleft : c ≠ '(' := ne_of_isBlank hc (by decide)
  have hright : c ≠ ')' := ne_of_isBlank hc (by decide)
  simp [Place.parens, hquote, hleft, hright]

theorem parens_letter {c : Char} (hc : isDelimiter c = false) (text : List Char) :
    Place.outside.parens (c :: text) = Place.outside.parens text := by
  simp only [isDelimiter, Bool.or_eq_false_iff, beq_eq_false_iff_ne] at hc
  simp [Place.parens, hc]

theorem parens_string_plain {c : Char} (hquote : c ≠ '"') (hbackslash : c ≠ '\\')
    (text : List Char) : Place.string.parens (c :: text) = Place.string.parens text := by
  simp [Place.parens, hquote, hbackslash]

/-- The reader takes the parentheses outside of strings for tokens, and no others. -/
theorem parensOf_tokens (inside : Inside) (text : List Char) :
    parensOf (inside.tokens text).1 = inside.place.parens text := by
  induction text generalizing inside with
  | nil => cases inside <;> rfl
  | cons c text ih =>
    have hnothing : parensOf (Inside.nothing.tokens (c :: text)).1 =
        Place.outside.parens (c :: text) := by
      cases hc : isDelimiter c with
      | false =>
        rw [Inside.tokens_letter hc, parens_letter hc]
        exact ih (.symbol [c])
      | true =>
        rcases isDelimiter_cases hc with hblank | rfl | rfl | rfl
        · rw [Inside.tokens_blank hblank, parens_blank hblank]
          exact ih .nothing
        · rw [Inside.tokens_parenLeft]
          exact congrArg (List.cons '(') (ih .nothing)
        · rw [Inside.tokens_parenRight]
          exact congrArg (List.cons ')') (ih .nothing)
        · rw [Inside.tokens_quote]
          exact ih (.string [])
    cases inside with
    | nothing => exact hnothing
    | symbol done =>
      cases hc : isDelimiter c with
      | false =>
        rw [Inside.tokens_symbol_letter hc]
        exact (ih (.symbol (c :: done))).trans (parens_letter hc text).symm
      | true =>
        rw [Inside.tokens_symbol_delimiter hc]
        exact hnothing
    | string done =>
      by_cases hquote : c = '"'
      · subst hquote
        rw [Inside.tokens_string_quote]
        exact ih .nothing
      · by_cases hbackslash : c = '\\'
        · subst hbackslash
          rw [Inside.tokens_string_backslash]
          exact ih (.escape done)
        · rw [Inside.tokens_string_plain hquote hbackslash]
          exact (ih (.string (c :: done))).trans (parens_string_plain hquote hbackslash text).symm
    | escape done =>
      rw [Inside.tokens_escape]
      exact ih (.string (unescapeChar c :: done))

/-- Reading goes on with the tokens of open lists until the last list is closed. It fails where a
list opens at the bound on depth, and at nothing else. -/
theorem readDatum_of_closes (unfinished : Option Unfinished) (items : List Datum)
    (outer : OpenLists) {tokens : List Token} (hdepth : outer.length < maxDepth)
    (hcloses : Closes (outer.length + 1) tokens) :
    Exceeds maxDepth (outer.length + 1) (parensOf tokens) ∧
        readDatum unfinished (items :: outer) tokens = .error .tooDeep ∨
      ¬ Exceeds maxDepth (outer.length + 1) (parensOf tokens) ∧
        ∃ data, readDatum unfinished (items :: outer) tokens = .ok (.list data, []) := by
  have hroom : ¬ maxDepth < outer.length + 1 := Nat.not_lt.2 hdepth
  induction tokens generalizing items outer with
  | nil => exact hcloses.elim
  | cons token rest ih =>
    cases token with
    | parenLeft =>
      rw [readDatum, parensOf_parenLeft, exceeds_parenLeft, or_iff_right hroom, List.length_cons]
      by_cases hdeep : maxDepth ≤ outer.length + 1
      · rw [if_pos hdeep]
        exact .inl ⟨⟨[], List.nil_prefix, by simp only [List.count_nil]; omega⟩, rfl⟩
      · rw [if_neg hdeep]
        have hinner : (items :: outer).length < maxDepth := Nat.lt_of_not_le hdeep
        exact ih [] (items :: outer) hinner hcloses (Nat.not_lt.2 hinner)
    | parenRight =>
      rw [readDatum, parensOf_parenRight, exceeds_parenRight, or_iff_right hroom]
      cases outer with
      | nil =>
        obtain rfl : rest = [] := hcloses
        exact .inr ⟨by simp [parensOf, exceeds_nil], items.reverse, rfl⟩
      | cons next outer =>
        have hinner : outer.length < maxDepth := Nat.lt_of_succ_lt hdepth
        exact ih (.list items.reverse :: next) outer hinner hcloses (Nat.not_lt.2 hinner)
    | string text => exact ih (.string text :: items) outer hdepth hcloses hroom
    | symbol name => exact ih (.symbol name :: items) outer hdepth hcloses hroom

/-- Conversely, what is read up to the end of the tokens closes the open lists with the last. -/
theorem closes_of_readDatum {unfinished : Option Unfinished} {items : List Datum}
    {outer : OpenLists} {tokens : List Token} {datum : Datum}
    (h : readDatum unfinished (items :: outer) tokens = .ok (datum, [])) :
    Closes (outer.length + 1) tokens := by
  induction tokens generalizing items outer with
  | nil => cases h
  | cons token rest ih =>
    cases token with
    | parenLeft =>
      rw [readDatum] at h
      split at h
      · cases h
      · exact ih h
    | parenRight =>
      cases outer with
      | nil =>
        cases h
        rfl
      | cons next outer => exact ih h
    | string text => exact ih h
    | symbol name => exact ih h

theorem prefix_cons_cases {α : Type} {a : α} {items : List α} {P : List α → Prop} (hnil : P [])
    (hcons : ∀ start, start <+: items → start ≠ items → P (a :: start)) :
    ∀ start, start <+: a :: items → start ≠ a :: items → P start := by
  intro start hstart hne
  rcases List.prefix_cons_iff.1 hstart with rfl | ⟨rest, rfl, hrest⟩
  · exact hnil
  · exact hcons rest hrest fun h => hne (h ▸ rfl)

/-- As many lists are closed as opened in the end, and fewer before. -/
theorem Closes.count {depth : Nat} {tokens : List Token} (hdepth : 0 < depth)
    (h : Closes depth tokens) :
    tokens.count .parenRight = depth + tokens.count .parenLeft ∧
      ∀ start, start <+: tokens → start ≠ tokens →
        start.count .parenRight < depth + start.count .parenLeft := by
  induction tokens generalizing depth with
  | nil => exact h.elim
  | cons token rest ih =>
    have hnil : ([] : List Token).count .parenRight < depth + ([] : List Token).count .parenLeft := by
      simpa using hdepth
    cases token with
    | parenLeft =>
      obtain ⟨htotal, hstarts⟩ := ih (Nat.succ_pos depth) h
      have hcount : ∀ tokens : List Token,
          (Token.parenLeft :: tokens).count .parenRight = tokens.count .parenRight ∧
            (Token.parenLeft :: tokens).count .parenLeft = tokens.count .parenLeft + 1 := by
        simp
      refine ⟨by rw [(hcount rest).1, (hcount rest).2]; omega, prefix_cons_cases hnil ?_⟩
      intro start hstart hne
      have hlt := hstarts start hstart hne
      rw [(hcount start).1, (hcount start).2]
      omega
    | parenRight =>
      have hcount : ∀ tokens : List Token,
          (Token.parenRight :: tokens).count .parenRight = tokens.count .parenRight + 1 ∧
            (Token.parenRight :: tokens).count .parenLeft = tokens.count .parenLeft := by
        simp
      match depth, h with
      | 1, h =>
        obtain rfl : rest = [] := h
        refine ⟨by simp, prefix_cons_cases hnil ?_⟩
        intro start hstart hne
        exact absurd (List.prefix_nil.1 hstart) hne
      | depth + 2, h =>
        obtain ⟨htotal, hstarts⟩ := ih (Nat.succ_pos depth) h
        refine ⟨by rw [(hcount rest).1, (hcount rest).2]; omega, prefix_cons_cases hnil ?_⟩
        intro start hstart hne
        have hlt := hstarts start hstart hne
        rw [(hcount start).1, (hcount start).2]
        omega
    | string text =>
      obtain ⟨htotal, hstarts⟩ := ih hdepth h
      refine ⟨by simpa using htotal, prefix_cons_cases hnil ?_⟩
      intro start hstart hne
      simpa using hstarts start hstart hne
    | symbol name =>
      obtain ⟨htotal, hstarts⟩ := ih hdepth h
      refine ⟨by simpa using htotal, prefix_cons_cases hnil ?_⟩
      intro start hstart hne
      simpa using hstarts start hstart hne

theorem oneList_of_closes {tokens : List Token} (h : Closes 1 tokens) :
    OneList (.parenLeft :: tokens) := by
  obtain ⟨htotal, hstarts⟩ := h.count Nat.one_pos
  refine ⟨rfl, by simpa [Nat.add_comm] using htotal.symm, ?_⟩
  intro start hstart hnil hne
  rcases List.prefix_cons_iff.1 hstart with rfl | ⟨rest, rfl, hrest⟩
  · exact absurd rfl hnil
  · have hlt := hstarts rest hrest fun heq => hne (heq ▸ rfl)
    simpa [Nat.add_comm] using hlt

def Reason.isShape : Reason → Bool
  | .frameNotString _ => true
  | .shape _ => true
  | .noTag => true
  | _ => false

theorem mapM_frame_error {frames : List Datum} {reason : Reason}
    (h : frames.mapM frame = .error reason) : reason.isShape = true := by
  induction frames with
  | nil => cases h
  | cons datum frames ih =>
    rw [List.mapM_cons] at h
    cases datum with
    | string text =>
      cases hframes : frames.mapM frame with
      | ok stack =>
        rw [hframes] at h
        cases h
      | error why =>
        rw [hframes] at h
        cases h
        exact ih hframes
    | symbol name =>
      cases h
      rfl
    | list items =>
      cases h
      rfl

/-- A list is an event, or it is refused for its shape. -/
theorem ofDatum_list (items : List Datum) :
    (∃ id, ofDatum (.list items) = .ok (.success id)) ∨
      (∃ id message stack, ofDatum (.list items) = .ok (.failure id message stack)) ∨
      ∃ reason, reason.isShape = true ∧ ofDatum (.list items) = .error reason := by
  unfold ofDatum
  split
  · next id h => exact .inl ⟨id, rfl⟩
  · next id message frames h =>
    cases hframes : frames.mapM frame with
    | ok stack => exact .inr (.inl ⟨id, message, stack, rfl⟩)
    | error reason => exact .inr (.inr ⟨reason, mapM_frame_error hframes, rfl⟩)
  · exact .inr (.inr ⟨_, rfl, rfl⟩)
  · exact .inr (.inr ⟨_, rfl, rfl⟩)
  · next hlist => exact absurd rfl (hlist items)

end RemoteEval.Response
