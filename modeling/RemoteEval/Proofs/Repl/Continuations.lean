import RemoteEval.Proofs.Repl.Brackets

/-!
Texts that go on. A bracket that does not match stays the first one that does not, so a text with
such a bracket is never balanced, however it goes on. Every other text can be completed: what is
open where its reading stops, be it a string, a comment or brackets, can be closed. So more input is
asked for exactly when it can help.
-/
namespace RemoteEval.Repl.Balance

open Literal

theorem MismatchIn.append {text opened : List Char} {c : Char} (h : MismatchIn text opened c)
    (more : List Char) : MismatchIn (text ++ more) opened c := by
  obtain ⟨front, back, rfl, hopened, hmismatch⟩ := h
  refine ⟨front, back ++ more, ?_, hopened, hmismatch⟩
  rw [List.append_assoc, List.cons_append]

/-- The inside of a string can go on to a place where a quote closes it. -/
theorem Unquoted.exists_closed {body : List Char} (h : Unquoted body) :
    ∃ more, Unquoted (body ++ more) ∧ backslashesAtEnd (body ++ more) % 2 = 0 := by
  by_cases heven : backslashesAtEnd body % 2 = 0
  · exact ⟨[], by rwa [List.append_nil], by rwa [List.append_nil]⟩
  · -- A character after the backslash that waits for one
    refine ⟨[' '], ?_, ?_⟩
    · rw [unquoted_concat]
      refine ⟨h, fun hquote => ?_⟩
      simp at hquote
    · rw [backslashesAtEnd_concat]
      rfl

/-- Brackets that are open can be closed. -/
theorem Opened.exists_items {opened text : List Char} (h : Opened opened text) :
    ∃ more, Items (text ++ more) := by
  induction opened generalizing text with
  | nil =>
    refine ⟨[], ?_⟩
    rw [List.append_nil]
    exact opened_nil_iff.1 h
  | cons o outer ih =>
    obtain ⟨c, hpair⟩ : ∃ c, Pair o c := by
      cases h with
      | bracket hpair _ _ => exact ⟨_, hpair⟩
    obtain ⟨more, hitems⟩ := ih (h.closing hpair)
    refine ⟨c :: more, ?_⟩
    rwa [List.append_assoc, List.singleton_append] at hitems

/-- A text without a bracket that does not match can go on to be items. -/
theorem exists_items {text : List Char} (h : ∀ opened c, ¬ MismatchIn text opened c) :
    ∃ more, Items (text ++ more) := by
  obtain ⟨opened, front, rest, htext, hopened, hstop⟩ := exists_stop (.items .nil) text
  rw [List.nil_append] at htext
  subst htext
  cases hstop with
  | mismatch hmismatch => exact absurd ⟨front, _, rfl, hopened, hmismatch⟩ (h opened _)
  | ended =>
    rw [List.append_nil]
    exact hopened.exists_items
  | string hbody =>
    obtain ⟨inside, hinside, hclosed⟩ := hbody.exists_closed
    obtain ⟨more, hitems⟩ :=
      (hopened.append (.string hinside hclosed .nil)).exists_items
    refine ⟨inside ++ '"' :: more, ?_⟩
    simpa using hitems
  | comment hbody =>
    obtain ⟨more, hitems⟩ := (hopened.append (.comment hbody .nil)).exists_items
    refine ⟨'\n' :: more, ?_⟩
    simpa using hitems

/-- A text can be completed exactly if it has no bracket that does not match. -/
theorem exists_complete_iff (text : String) :
    (∃ more, balance (text ++ more) = .complete) ↔
      ∀ opened c, ¬ MismatchIn text.toList opened c := by
  constructor
  · rintro ⟨more, hcomplete⟩ opened c hmismatch
    have hblame := (hmismatch.append more.toList).scan_eq
    rw [balance, String.toList_append, hblame] at hcomplete
    cases opened <;> cases hcomplete
  · intro h
    obtain ⟨more, hitems⟩ := exists_items h
    refine ⟨String.ofList more, ?_⟩
    rw [balance, String.toList_append, String.toList_ofList]
    exact (Balanced.items hitems).scan_eq

/-- The verdicts that nothing can change are those about a bracket that does not match. -/
theorem exists_mismatch_iff (text : String) :
    (∃ opened c, MismatchIn text.toList opened c) ↔
      (∃ c, balance text = .unpaired c) ∨ ∃ o, balance text = .unclosed o := by
  constructor
  · rintro ⟨opened, c, hmismatch⟩
    cases opened with
    | nil => exact .inl ⟨c, hmismatch.scan_eq⟩
    | cons innermost outer => exact .inr ⟨innermost, hmismatch.scan_eq⟩
  · have hverdict := verdict_balance text
    rintro (⟨c, hunpaired⟩ | ⟨o, hunclosed⟩)
    · rw [hunpaired] at hverdict
      cases hverdict with
      | unpaired hmismatch => exact ⟨_, _, hmismatch⟩
    · rw [hunclosed] at hverdict
      cases hverdict with
      | unclosed hmismatch => exact ⟨_, _, hmismatch⟩

/-- No continuation completes a text exactly if its verdict is about a bracket. -/
theorem never_complete_iff (text : String) :
    (∀ more, balance (text ++ more) ≠ .complete) ↔
      (∃ c, balance text = .unpaired c) ∨ ∃ o, balance text = .unclosed o := by
  rw [← exists_mismatch_iff, ← not_exists, exists_complete_iff]
  simp only [not_forall, not_not]

/-- Such a verdict stays as it is. -/
theorem balance_append_of_mismatch {text : String} {opened : List Char} {c : Char}
    (h : MismatchIn text.toList opened c) (more : String) :
    balance (text ++ more) = balance text := by
  rw [balance, balance, String.toList_append, (h.append more.toList).scan_eq, h.scan_eq]

/-- A line break ends whatever a balanced text may still be in. -/
theorem Balanced.items_lineBreak {text : List Char} (h : Balanced text) :
    Items (text ++ ['\n']) := by
  cases h with
  | items hitems => exact hitems.append (.plain (by decide) .nil)
  | comment hfront hbody =>
    rw [List.append_assoc, List.cons_append]
    exact hfront.append (.comment hbody .nil)

theorem Items.balanced_append {front back : List Char} (hfront : Items front)
    (hback : Balanced back) : Balanced (front ++ back) := by
  cases hback with
  | items hitems => exact .items (hfront.append hitems)
  | comment hitems hbody =>
    rw [← List.append_assoc]
    exact .comment (hfront.append hitems) hbody

structure Foretells (text : String) : Prop where
  incomplete : balance text = .incomplete ↔
    balance text ≠ .complete ∧ ∃ more, balance (text ++ more) = .complete
  hopeless : ((∃ c, balance text = .unpaired c) ∨ ∃ o, balance text = .unclosed o) ↔
    ∀ more, balance (text ++ more) ≠ .complete
  unpaired : ∀ c, balance text = .unpaired c → ∀ more, balance (text ++ more) = .unpaired c
  unclosed : ∀ o, balance text = .unclosed o → ∀ more, balance (text ++ more) = .unclosed o
  complaint : (balance text).complaint.isSome ↔ ∀ more, balance (text ++ more) ≠ .complete
  joined : balance text = .complete → ∀ other, balance other = .complete →
    balance (text ++ "\n" ++ other) = .complete

/-- More input is asked for exactly when it can help. -/
theorem more_input_is_asked_for_when_it_helps (text : String) : Foretells text where
  incomplete := by
    constructor
    · intro hincomplete
      refine ⟨by rw [hincomplete]; exact Balance.noConfusion, ?_⟩
      by_contra hnever
      rcases (never_complete_iff text).1 (not_exists.1 hnever) with ⟨c, hc⟩ | ⟨o, ho⟩
      · cases hincomplete.symm.trans hc
      · cases hincomplete.symm.trans ho
    · rintro ⟨hopen, more, hcomplete⟩
      have hverdict : ¬ ∀ more, balance (text ++ more) ≠ .complete := by
        exact fun hnever => hnever more hcomplete
      rw [never_complete_iff] at hverdict
      cases hbalance : balance text with
      | complete => exact absurd hbalance hopen
      | incomplete => rfl
      | unpaired c => exact absurd (.inl ⟨c, hbalance⟩) hverdict
      | unclosed o => exact absurd (.inr ⟨o, hbalance⟩) hverdict
  hopeless := (never_complete_iff text).symm
  unpaired := by
    intro c hunpaired more
    obtain ⟨opened, d, hmismatch⟩ := (exists_mismatch_iff text).2 (.inl ⟨c, hunpaired⟩)
    rw [balance_append_of_mismatch hmismatch, hunpaired]
  unclosed := by
    intro o hunclosed more
    obtain ⟨opened, d, hmismatch⟩ := (exists_mismatch_iff text).2 (.inr ⟨o, hunclosed⟩)
    rw [balance_append_of_mismatch hmismatch, hunclosed]
  complaint := by
    rw [never_complete_iff]
    cases balance text <;> simp [Balance.complaint]
  joined := by
    intro hcomplete other hother
    have hfront := verdict_balance text
    have hback := verdict_balance other
    rw [hcomplete] at hfront
    rw [hother] at hback
    cases hfront with
    | complete hfront =>
      cases hback with
      | complete hback =>
        rw [balance, String.toList_append, String.toList_append]
        exact (hfront.items_lineBreak.balanced_append hback).scan_eq

end RemoteEval.Repl.Balance
