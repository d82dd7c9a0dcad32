import RemoteEval.Proofs.Literal.Sealed
import RemoteEval.Repl.Balance

/-!
The grammar of brackets. A balanced text is made of items: characters that mean nothing, strings,
comments, and pairs of brackets around such texts; only the last comment may lack its line break.
Reading an item leaves the open brackets as they are, so what has been read of a text at any point
is items and, between them, the brackets that are still open. A text is read to its end or up to the
first closing bracket that does not match, and where the reading stops decides the verdict.
-/
namespace RemoteEval.Repl.Balance

open Literal

inductive Pair : Char → Char → Prop where
  | round : Pair '(' ')'
  | square : Pair '[' ']'
  | curly : Pair '\x7b' '\x7d'

def special : List Char := ['"', '#', '(', ')', '[', ']', '\x7b', '\x7d']

/-- The inside of a string as far as it is not closed: every quote in it stands behind an odd number
of backslashes. -/
def Unquoted (body : List Char) : Prop :=
  ∀ front back, body = front ++ '"' :: back → backslashesAtEnd front % 2 = 1

inductive Items : List Char → Prop where
  | nil : Items []
  | plain {c : Char} {rest : List Char} (hc : c ∉ special) (hrest : Items rest) :
      Items (c :: rest)
  | string {body rest : List Char} (hbody : Unquoted body)
      (hclosed : backslashesAtEnd body % 2 = 0) (hrest : Items rest) :
      Items ('"' :: (body ++ '"' :: rest))
  | comment {body rest : List Char} (hbody : '\n' ∉ body) (hrest : Items rest) :
      Items ('#' :: (body ++ '\n' :: rest))
  | pair {o c : Char} {inner rest : List Char} (hpair : Pair o c) (hinner : Items inner)
      (hrest : Items rest) : Items (o :: (inner ++ c :: rest))

inductive Balanced : List Char → Prop where
  | items {text : List Char} (hitems : Items text) : Balanced text
  | comment {front body : List Char} (hfront : Items front) (hbody : '\n' ∉ body) :
      Balanced (front ++ '#' :: body)

inductive Opened : List Char → List Char → Prop where
  | items {text : List Char} (hitems : Items text) : Opened [] text
  | bracket {o c : Char} {outer front inner : List Char} (hpair : Pair o c)
      (hfront : Opened outer front) (hinner : Items inner) :
      Opened (o :: outer) (front ++ o :: inner)

/-- A closing bracket that does not match the innermost one of the brackets open before it. -/
structure Mismatch (opened : List Char) (c : Char) : Prop where
  closing : ∃ o, Pair o c
  unmatched : ∀ o, opened.head? = some o → ¬ Pair o c

/-- A text has such a bracket, with these brackets open before it. Before it, every closing bracket
closes the innermost one that is open. -/
def MismatchIn (text opened : List Char) (c : Char) : Prop :=
  ∃ front back, text = front ++ c :: back ∧ Opened opened front ∧ Mismatch opened c

/-! Reading one character of code. -/

theorem scan_plain {c : Char} (h : c ∉ special) (opened rest : List Char) :
    scan .code opened (c :: rest) = scan .code opened rest := by
  simp only [special, List.mem_cons, List.not_mem_nil, or_false, not_or] at h
  obtain ⟨hquote, hcomment, h1, h2, h3, h4, h5, h6⟩ := h
  simp [scan, isOpening, opening?, *]

theorem scan_opening {o c : Char} (h : Pair o c) (opened rest : List Char) :
    scan .code opened (o :: rest) = scan .code (o :: opened) rest := by
  cases h <;> simp [scan, isOpening]

theorem scan_closing {o c : Char} (h : Pair o c) (opened rest : List Char) :
    scan .code opened (c :: rest) =
      match opened with
      | [] => .unpaired c
      | innermost :: outer =>
        if innermost = o then scan .code outer rest else .unclosed innermost := by
  cases h <;> cases opened <;> simp [scan, isOpening, opening?]

/-! Reading strings and comments. -/

theorem unquoted_nil : Unquoted [] := by
  intro front back h
  simp at h

theorem unquoted_concat {body : List Char} {c : Char} :
    Unquoted (body ++ [c]) ↔
      Unquoted body ∧ (c = '"' → backslashesAtEnd body % 2 = 1) := by
  constructor
  · intro h
    constructor
    · rintro front back rfl
      exact h front (back ++ [c]) (by simp)
    · rintro rfl
      exact h body [] rfl
  · rintro ⟨hbody, hlast⟩ front back heq
    rcases List.eq_nil_or_concat back with rfl | ⟨middle, d, rfl⟩
    · obtain ⟨rfl, hc⟩ := List.append_inj' heq rfl
      exact hlast (List.singleton_inj.1 hc)
    · rw [List.concat_eq_append, ← List.cons_append, ← List.append_assoc] at heq
      exact hbody front middle (List.append_inj' heq rfl).1

/-- Inside of a string the number of backslashes at the end tells whether the next character is
taken as it comes. -/
theorem scan_unquoted {body : List Char} (h : Unquoted body) (opened rest : List Char) :
    scan .string opened (body ++ rest) =
      scan (if backslashesAtEnd body % 2 = 0 then .string else .escape) opened rest := by
  induction body using List.reverseRecOn generalizing rest with
  | nil => rfl
  | append_singleton body c ih =>
    obtain ⟨hbody, hlast⟩ := unquoted_concat.1 h
    rw [List.append_assoc, List.singleton_append, ih hbody, backslashesAtEnd_concat]
    by_cases heven : backslashesAtEnd body % 2 = 0
    · have hquote : c ≠ '"' := by
        intro hc
        have hodd := hlast hc
        omega
      by_cases hc : c = '\\'
      · have hodd : ¬ (backslashesAtEnd body + 1) % 2 = 0 := by omega
        rw [if_pos heven, if_pos hc, if_neg hodd, scan, if_pos hc]
      · rw [if_pos heven, if_neg hc, scan, if_neg hc, if_neg hquote]
        rfl
    · have hnext : (if c = '\\' then backslashesAtEnd body + 1 else 0) % 2 = 0 := by
        split <;> omega
      rw [if_neg heven, if_pos hnext, scan]

theorem scan_string {body : List Char} (hbody : Unquoted body)
    (hclosed : backslashesAtEnd body % 2 = 0) (opened rest : List Char) :
    scan .code opened ('"' :: (body ++ '"' :: rest)) = scan .code opened rest := by
  rw [scan, if_pos rfl, scan_unquoted hbody, if_pos hclosed]
  simp [scan]

theorem scan_comment {body : List Char} (hbody : '\n' ∉ body) (opened rest : List Char) :
    scan .comment opened (body ++ rest) = scan .comment opened rest := by
  induction body with
  | nil => rfl
  | cons c body ih =>
    obtain ⟨hc, hrest⟩ := not_or.1 (mt List.mem_cons.2 hbody)
    rw [List.cons_append, scan, if_neg (Ne.symm hc)]
    exact ih hrest

/-! Reading items, and what is open behind them. -/

/-- Items leave the open brackets as they are. -/
theorem Items.scan_append {text : List Char} (h : Items text) (opened rest : List Char) :
    scan .code opened (text ++ rest) = scan .code opened rest := by
  induction h generalizing opened rest with
  | nil => rfl
  | plain hc _ ih => rw [List.cons_append, scan_plain hc, ih]
  | string hbody hclosed _ ih =>
    rw [List.cons_append, List.append_assoc, List.cons_append, scan_string hbody hclosed, ih]
  | comment hbody _ ih =>
    rw [List.cons_append, List.append_assoc, List.cons_append, scan]
    simp only [Char.reduceEq, if_false, if_true]
    rw [scan_comment hbody, scan, if_pos rfl, ih]
  | pair hpair _ _ ihinner ihrest =>
    rw [List.cons_append, List.append_assoc, List.cons_append, scan_opening hpair, ihinner,
      scan_closing hpair]
    simp only [if_true]
    exact ihrest opened rest

theorem Opened.scan_append {opened text : List Char} (h : Opened opened text)
    (rest : List Char) : scan .code [] (text ++ rest) = scan .code opened rest := by
  induction h generalizing rest with
  | items hitems => exact hitems.scan_append [] rest
  | bracket hpair _ hinner ih =>
    rw [List.append_assoc, List.cons_append, ih, scan_opening hpair, hinner.scan_append]

theorem Items.append {front back : List Char} (hfront : Items front) (hback : Items back) :
    Items (front ++ back) := by
  induction hfront with
  | nil => exact hback
  | plain hc _ ih => exact .plain hc ih
  | string hbody hclosed _ ih =>
    rw [List.cons_append, List.append_assoc, List.cons_append]
    exact .string hbody hclosed ih
  | comment hbody _ ih =>
    rw [List.cons_append, List.append_assoc, List.cons_append]
    exact .comment hbody ih
  | pair hpair hinner _ _ ih =>
    rw [List.cons_append, List.append_assoc, List.cons_append]
    exact .pair hpair hinner ih

theorem Opened.append {opened front back : List Char} (hfront : Opened opened front)
    (hback : Items back) : Opened opened (front ++ back) := by
  cases hfront with
  | items hitems => exact .items (hitems.append hback)
  | bracket hpair houter hinner =>
    rw [List.append_assoc, List.cons_append]
    exact .bracket hpair houter (hinner.append hback)

theorem Opened.opening {opened text : List Char} {o c : Char} (h : Opened opened text)
    (hpair : Pair o c) : Opened (o :: opened) (text ++ [o]) :=
  .bracket hpair h .nil

theorem Opened.closing {outer text : List Char} {o c : Char} (h : Opened (o :: outer) text)
    (hpair : Pair o c) : Opened outer (text ++ [c]) := by
  cases h with
  | bracket _ hfront hinner =>
    rw [List.append_assoc, List.cons_append]
    exact hfront.append (.pair hpair hinner .nil)

theorem opened_nil_iff {text : List Char} : Opened [] text ↔ Items text := by
  constructor
  · rintro ⟨hitems⟩
    exact hitems
  · exact .items

/-! Where the reading stops. -/

/-- What is left of a text behind which the reading of code cannot go on, with brackets open. -/
inductive Stop (opened : List Char) : List Char → Prop where
  | ended : Stop opened []
  | string {body : List Char} (hbody : Unquoted body) : Stop opened ('"' :: body)
  | comment {body : List Char} (hbody : '\n' ∉ body) : Stop opened ('#' :: body)
  | mismatch {c : Char} {rest : List Char} (hmismatch : Mismatch opened c) :
      Stop opened (c :: rest)

theorem char_cases (c : Char) :
    c = '"' ∨ c = '#' ∨ (∃ d, Pair c d) ∨ (∃ o, Pair o c) ∨ c ∉ special := by
  by_cases hc : c ∈ special
  · simp only [special, List.mem_cons, List.not_mem_nil, or_false] at hc
    rcases hc with rfl | rfl | rfl | rfl | rfl | rfl | rfl | rfl
    · exact .inl rfl
    · exact .inr (.inl rfl)
    · exact .inr (.inr (.inl ⟨_, .round⟩))
    · exact .inr (.inr (.inr (.inl ⟨_, .round⟩)))
    · exact .inr (.inr (.inl ⟨_, .square⟩))
    · exact .inr (.inr (.inr (.inl ⟨_, .square⟩)))
    · exact .inr (.inr (.inl ⟨_, .curly⟩))
    · exact .inr (.inr (.inr (.inl ⟨_, .curly⟩)))
  · exact .inr (.inr (.inr (.inr hc)))

/-- The inside of a string goes on to the end, or up to the first quote that closes it. -/
theorem exists_closing_quote (text : List Char) :
    Unquoted text ∨ ∃ body rest, text = body ++ '"' :: rest ∧ Unquoted body ∧
      backslashesAtEnd body % 2 = 0 := by
  induction text using List.reverseRecOn with
  | nil => exact .inl unquoted_nil
  | append_singleton text c ih =>
    rcases ih with hopen | ⟨body, rest, rfl, hbody, hclosed⟩
    · by_cases hends : c = '"' ∧ backslashesAtEnd text % 2 = 0
      · obtain ⟨rfl, heven⟩ := hends
        exact .inr ⟨text, [], rfl, hopen, heven⟩
      · left
        rw [unquoted_concat]
        refine ⟨hopen, fun hc => ?_⟩
        have hodd : ¬ backslashesAtEnd text % 2 = 0 := fun heven => hends ⟨hc, heven⟩
        omega
    · exact .inr ⟨body, rest ++ [c], by simp, hbody, hclosed⟩

/-- Whatever has been read, the reading goes on to where it stops. -/
theorem exists_stop {opened front : List Char} (h : Opened opened front) (rest : List Char) :
    ∃ opened' front' rest', front ++ rest = front' ++ rest' ∧ Opened opened' front' ∧
      Stop opened' rest' := by
  induction hlength : rest.length using Nat.strong_induction_on generalizing opened front rest with
  | h length ih =>
    subst hlength
    -- One more item or bracket is read, and less is left.
    have hread {opened' taken more : List Char} (hrest : rest = taken ++ more)
        (htaken : taken ≠ []) (hopened : Opened opened' (front ++ taken)) :
        ∃ opened' front' rest', front ++ rest = front' ++ rest' ∧ Opened opened' front' ∧
          Stop opened' rest' := by
      have hless : more.length < rest.length := by
        have hpos := List.length_pos_iff.2 htaken
        rw [hrest, List.length_append]
        omega
      obtain ⟨last, front', rest', heq, hstops⟩ := ih more.length hless hopened more rfl
      exact ⟨last, front', rest', by rw [hrest, ← List.append_assoc, heq], hstops⟩
    cases rest with
    | nil => exact ⟨opened, front, [], rfl, h, .ended⟩
    | cons c rest =>
      rcases char_cases c with rfl | rfl | ⟨d, hpair⟩ | ⟨o, hpair⟩ | hplain
      · rcases exists_closing_quote rest with hopen | ⟨body, more, rfl, hbody, hclosed⟩
        · exact ⟨opened, front, _, rfl, h, .string hopen⟩
        · have hsplit : '"' :: (body ++ '"' :: more) = '"' :: (body ++ ['"']) ++ more := by simp
          exact hread hsplit (List.cons_ne_nil _ _) (h.append (.string hbody hclosed .nil))
      · by_cases hbreak : '\n' ∈ rest
        · obtain ⟨body, more, rfl, hbody⟩ := List.eq_append_cons_of_mem hbreak
          have hsplit : '#' :: (body ++ '\n' :: more) = '#' :: (body ++ ['\n']) ++ more := by simp
          exact hread hsplit (List.cons_ne_nil _ _) (h.append (.comment hbody .nil))
        · exact ⟨opened, front, _, rfl, h, .comment hbreak⟩
      · exact hread rfl (List.cons_ne_nil c []) (h.opening hpair)
      · cases opened with
        | nil => exact ⟨[], front, _, rfl, h, .mismatch ⟨⟨o, hpair⟩, by simp⟩⟩
        | cons innermost outer =>
          by_cases hmatch : Pair innermost c
          · exact hread rfl (List.cons_ne_nil c []) (h.closing hmatch)
          · refine ⟨innermost :: outer, front, _, rfl, h, .mismatch ⟨⟨o, hpair⟩, ?_⟩⟩
            rintro _ ⟨⟩
            exact hmatch
      · exact hread rfl (List.cons_ne_nil c []) (h.append (.plain hplain .nil))

/-! The verdicts. -/

def blame (opened : List Char) (c : Char) : Balance :=
  match opened with
  | [] => .unpaired c
  | innermost :: _ => .unclosed innermost

theorem MismatchIn.scan_eq {text opened : List Char} {c : Char} (h : MismatchIn text opened c) :
    scan .code [] text = blame opened c := by
  obtain ⟨front, back, rfl, hopened, ⟨o, hpair⟩, hunmatched⟩ := h
  rw [hopened.scan_append, scan_closing hpair]
  cases opened with
  | nil => rfl
  | cons innermost outer =>
    have hne : innermost ≠ o := by
      rintro rfl
      exact hunmatched innermost rfl hpair
    simp only [if_neg hne]
    rfl

theorem Balanced.scan_eq {text : List Char} (h : Balanced text) :
    scan .code [] text = .complete := by
  cases h with
  | items hitems =>
    have hscan := hitems.scan_append [] []
    rwa [List.append_nil] at hscan
  | comment hfront hbody =>
    have hscan := scan_comment hbody [] []
    rw [List.append_nil] at hscan
    rw [hfront.scan_append, scan]
    simp only [Char.reduceEq, if_false, if_true]
    exact hscan

/-- Every text is balanced, has a bracket that does not match, or needs more. -/
theorem scan_cases (text : List Char) :
    Balanced text ∨ (∃ opened c, MismatchIn text opened c) ∨ scan .code [] text = .incomplete := by
  obtain ⟨opened, front, rest, htext, hopened, hstop⟩ := exists_stop (.items .nil) text
  rw [List.nil_append] at htext
  subst htext
  have hscan := hopened.scan_append rest
  cases hstop with
  | mismatch hmismatch => exact .inr (.inl ⟨opened, _, front, _, rfl, hopened, hmismatch⟩)
  | string hbody =>
    have hread := scan_unquoted hbody opened []
    rw [List.append_nil] at hread
    right; right
    rw [hscan, scan, if_pos rfl, hread]
    split <;> rfl
  | ended =>
    cases opened with
    | nil =>
      rw [List.append_nil]
      exact .inl (.items (opened_nil_iff.1 hopened))
    | cons innermost outer => exact .inr (.inr hscan)
  | comment hbody =>
    have hread := scan_comment hbody opened []
    rw [List.append_nil] at hread
    cases opened with
    | nil => exact .inl (.comment (opened_nil_iff.1 hopened) hbody)
    | cons innermost outer =>
      right; right
      rw [hscan, scan]
      simp only [Char.reduceEq, if_false, if_true]
      exact hread

inductive Verdict (text : List Char) : Balance → Prop where
  | complete (hbalanced : Balanced text) : Verdict text .complete
  | unpaired {c : Char} (hmismatch : MismatchIn text [] c) : Verdict text (.unpaired c)
  | unclosed {o c : Char} {outer : List Char} (hmismatch : MismatchIn text (o :: outer) c) :
      Verdict text (.unclosed o)
  | incomplete (hunbalanced : ¬ Balanced text)
      (hmatched : ∀ opened c, ¬ MismatchIn text opened c) : Verdict text .incomplete

theorem verdict_balance (text : String) : Verdict text.toList (balance text) := by
  unfold balance
  rcases scan_cases text.toList with hbalanced | ⟨opened, c, hmismatch⟩ | hscan
  · rw [hbalanced.scan_eq]
    exact .complete hbalanced
  · rw [hmismatch.scan_eq]
    cases opened with
    | nil => exact .unpaired hmismatch
    | cons innermost outer => exact .unclosed hmismatch
  · rw [hscan]
    constructor
    · intro hbalanced
      cases hbalanced.scan_eq.symm.trans hscan
    · intro opened c hmismatch
      have hblame := hmismatch.scan_eq.symm.trans hscan
      cases opened <;> cases hblame

theorem Verdict.scan_eq {text : List Char} {verdict : Balance} (h : Verdict text verdict) :
    scan .code [] text = verdict := by
  cases h with
  | complete hbalanced => exact hbalanced.scan_eq
  | unpaired hmismatch => exact hmismatch.scan_eq
  | unclosed hmismatch => exact hmismatch.scan_eq
  | incomplete hunbalanced hmatched =>
    rcases scan_cases text with hbalanced | ⟨opened, c, hmismatch⟩ | hscan
    · exact absurd hbalanced hunbalanced
    · exact absurd hmismatch (hmatched opened c)
    · exact hscan

/-- A text gets exactly the verdict that the grammar gives. -/
theorem balance_follows_grammar (text : String) (verdict : Balance) :
    balance text = verdict ↔ Verdict text.toList verdict := by
  constructor
  · rintro rfl
    exact verdict_balance text
  · exact Verdict.scan_eq

/-- The quote behind two backslashes closes the string, and the bracket in it does not count. -/
example : balance "f(\"[\\\\\"] # )" = .unclosed '(' := by decide

end RemoteEval.Repl.Balance
