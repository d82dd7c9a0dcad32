import Mathlib.Data.List.TakeWhile
import RemoteEval.Text.Blank
import RemoteEval.Text.Split

/-!
Cutting texts that were put together. A text cut at a mark falls into the parts that stand around
it, if the mark does not occur earlier; trimming gives back a text that had blanks put around it.
-/
namespace RemoteEval.Text

theorem dropStart?_append (start rest : List Char) : dropStart? start (start ++ rest) = some rest :=
  dropStart?_eq_some.2 rfl

theorem dropEnd?_append (rest tail : List Char) : dropEnd? tail (rest ++ tail) = some rest :=
  dropEnd?_eq_some.2 rfl

theorem dropStart?_eq_none {start text : List Char} (h : ¬ start <+: text) :
    dropStart? start text = none := by
  cases hrest : dropStart? start text with
  | none => rfl
  | some rest => exact absurd ⟨rest, (dropStart?_eq_some.1 hrest).symm⟩ h

theorem breakAt?_append (mark after : List Char) :
    breakAt? mark (mark ++ after) = some ([], after) := by
  have hmark := dropStart?_append mark after
  cases htext : mark ++ after with
  | nil =>
    rw [htext] at hmark
    rw [breakAt?, hmark]
    rfl
  | cons c text =>
    rw [htext] at hmark
    rw [breakAt?, hmark]

/-- A character at which the mark does not start belongs to the part before the mark. -/
theorem breakAt?_cons {mark text before after : List Char} {c : Char} (hstart : ¬ mark <+: c :: text)
    (h : breakAt? mark text = some (before, after)) :
    breakAt? mark (c :: text) = some (c :: before, after) := by
  rw [breakAt?, dropStart?_eq_none hstart, h]
  rfl

theorem breakAt?_cons_of_ne {m c : Char} {mark text before after : List Char} (hc : m ≠ c)
    (h : breakAt? (m :: mark) text = some (before, after)) :
    breakAt? (m :: mark) (c :: text) = some (c :: before, after) := by
  refine breakAt?_cons ?_ h
  rintro ⟨rest, hrest⟩
  exact hc (List.cons.inj hrest).1

theorem breakAt?_word {m : Char} {mark word text before after : List Char} (hword : m ∉ word)
    (h : breakAt? (m :: mark) text = some (before, after)) :
    breakAt? (m :: mark) (word ++ text) = some (word ++ before, after) := by
  induction word with
  | nil => exact h
  | cons c word ih =>
    simp only [List.mem_cons, not_or] at hword
    exact breakAt?_cons_of_ne hword.1 (ih hword.2)

/-- A mark that was found stays the first one when the text goes on: one that begins earlier would
have to end earlier too. -/
theorem breakAt?_append_right {mark text before after : List Char}
    (h : breakAt? mark text = some (before, after)) (more : List Char) :
    breakAt? mark (text ++ more) = some (before, after ++ more) := by
  induction text generalizing before with
  | nil =>
    obtain ⟨rest, hrest, heq⟩ := Option.map_eq_some_iff.1 h
    obtain ⟨rfl, rfl⟩ := List.append_eq_nil_iff.1 (dropStart?_eq_some.1 hrest).symm
    cases heq
    exact breakAt?_append [] more
  | cons c text ih =>
    rw [breakAt?] at h
    split at h
    · next rest hrest =>
      cases h
      rw [dropStart?_eq_some.1 hrest, List.append_assoc]
      exact breakAt?_append mark (after ++ more)
    · next hnone =>
      obtain ⟨⟨front, rest⟩, hbreak, heq⟩ := Option.map_eq_some_iff.1 h
      cases heq
      refine breakAt?_cons ?_ (ih hbreak)
      intro hstart
      have hlength : mark.length ≤ (c :: text).length := by
        have htext := congrArg List.length (eq_append_of_breakAt? hbreak)
        simp only [List.length_append] at htext
        rw [List.length_cons]
        omega
      obtain ⟨tail, htail⟩ :=
        List.prefix_of_prefix_length_le hstart (List.prefix_append (c :: text) more) hlength
      rw [dropStart?_eq_some.2 htail.symm] at hnone
      cases hnone

theorem trimEnd_append {text blanks : List Char} (hblanks : ∀ c ∈ blanks, isBlank c = true)
    (hlast : ∀ c ∈ text.getLast?, isBlank c = false) : trimEnd (text ++ blanks) = text := by
  have hpass : ∀ c ∈ blanks.reverse, isBlank c = true := by simpa using hblanks
  rw [trimEnd, List.reverse_append, List.dropWhile_append_of_pos hpass]
  cases hreverse : text.reverse with
  | nil => simpa using congrArg List.reverse hreverse.symm
  | cons c rest =>
    have hc : isBlank c = false := hlast c (by simp [← List.head?_reverse, hreverse])
    rw [List.dropWhile_cons_of_neg (by simp [hc]), ← hreverse, List.reverse_reverse]

theorem trimEnd_eq_self {text : List Char} (hlast : ∀ c ∈ text.getLast?, isBlank c = false) :
    trimEnd text = text := by
  have hnone : ∀ c ∈ ([] : List Char), isBlank c = true := by simp
  simpa using trimEnd_append hnone hlast

/-- Nothing is trimmed off a text with no blank at either end. -/
theorem trim_eq_self {text : List Char} (hhead : ∀ c ∈ text.head?, isBlank c = false)
    (hlast : ∀ c ∈ text.getLast?, isBlank c = false) : trim text = text := by
  have hstart : trimStart text = text := by
    cases text with
    | nil => rfl
    | cons c rest => exact List.dropWhile_cons_of_neg (by simp [hhead c rfl])
  rw [trim, hstart, trimEnd_eq_self hlast]

abbrev Blank (text : List Char) : Prop := ∀ c ∈ text, isBlank c = true

theorem trimStart_eq_nil {text : List Char} (h : Blank text) : trimStart text = [] :=
  List.dropWhile_eq_nil_iff.2 h

theorem trim_eq_nil_iff {text : List Char} : trim text = [] ↔ Blank text := by
  constructor
  · intro h
    have hstart : trimStart text = [] := by
      obtain ⟨tail, htext, hblank⟩ := trimEnd_append_blanks (trimStart text)
      rw [← trim, h, List.nil_append] at htext
      cases hrest : trimStart text with
      | nil => rfl
      | cons c rest =>
        have hhead := List.head?_dropWhile_not isBlank text
        rw [← trimStart, hrest] at hhead
        have hc := hblank c (by rw [← htext, hrest]; exact List.mem_cons_self)
        simp [hc] at hhead
    exact List.dropWhile_eq_nil_iff.1 hstart
  · intro h
    rw [trim, trimStart_eq_nil h]
    rfl

theorem trim_blank_append {front : List Char} (hfront : Blank front) (text : List Char) :
    trim (front ++ text) = trim text := by
  rw [trim, trimStart, List.dropWhile_append_of_pos hfront]
  rfl

theorem trim_append_blank (text : List Char) {back : List Char} (hback : Blank back) :
    trim (text ++ back) = trim text := by
  have hend : ∀ rest, trimEnd (rest ++ back) = trimEnd rest := by
    intro rest
    rw [trimEnd, List.reverse_append,
      List.dropWhile_append_of_pos fun c hc => hback c (List.mem_reverse.1 hc)]
    rfl
  rw [trim, trim, trimStart, List.dropWhile_append]
  split
  · next hnil =>
    rw [← trimStart, trimStart_eq_nil hback, trimStart, List.isEmpty_iff.1 hnil]
  · exact hend _

/-- Trimming gives back a text that had blanks put around it. -/
theorem trim_append {front text back : List Char} (hfront : Blank front) (hback : Blank back)
    (hhead : ∀ c ∈ text.head?, isBlank c = false) (hlast : ∀ c ∈ text.getLast?, isBlank c = false) :
    trim (front ++ (text ++ back)) = text := by
  rw [trim_blank_append hfront, trim_append_blank text hback, trim_eq_self hhead hlast]

/-- Only blanks are trimmed off. -/
theorem exists_blank_append_trim (text : List Char) :
    ∃ front back, Blank front ∧ Blank back ∧ text = front ++ (trim text ++ back) := by
  obtain ⟨back, hrest, hback⟩ := trimEnd_append_blanks (trimStart text)
  refine ⟨text.takeWhile isBlank, back, List.all_eq_true.1 List.all_takeWhile, hback, ?_⟩
  rw [trim, ← hrest, trimStart, List.takeWhile_append_dropWhile]

/-- A text cut at a character that does not occur behind it is cut in the same places, and what is
behind it goes to the last piece. -/
theorem exists_splitOn_append {sep : Char} {back : List Char} (hback : sep ∉ back)
    (text : List Char) : ∃ pieces last, text.splitOn sep = pieces ++ [last] ∧
      (text ++ back).splitOn sep = pieces ++ [last ++ back] := by
  induction text with
  | nil => exact ⟨[], [], rfl, List.splitOn_eq_singleton hback⟩
  | cons c text ih =>
    obtain ⟨pieces, last, htext, hlonger⟩ := ih
    rw [List.cons_append, List.splitOn_cons_eq_if_modifyHead,
      List.splitOn_cons_eq_if_modifyHead, htext, hlonger]
    by_cases hc : (c == sep) = true
    · rw [if_pos hc, if_pos hc]
      exact ⟨[] :: pieces, last, rfl, rfl⟩
    · rw [if_neg hc, if_neg hc]
      cases pieces with
      | nil => exact ⟨[], c :: last, rfl, rfl⟩
      | cons piece pieces => exact ⟨(c :: piece) :: pieces, last, rfl, rfl⟩

theorem map_trim_splitOn_blank_append {sep : Char} (hsep : isBlank sep = false)
    {front : List Char} (hfront : Blank front) (text : List Char) :
    ((front ++ text).splitOn sep).map trim = (text.splitOn sep).map trim := by
  induction front with
  | nil => rfl
  | cons c front ih =>
    obtain ⟨hc, hfront⟩ := List.forall_mem_cons.1 hfront
    have hne : ¬ (c == sep) = true := by
      rw [beq_iff_eq]
      rintro rfl
      exact Bool.false_ne_true (hsep.symm.trans hc)
    rw [List.cons_append, List.splitOn_cons_eq_if_modifyHead, if_neg hne, ← ih hfront]
    cases (front ++ text).splitOn sep with
    | nil => rfl
    | cons piece pieces =>
      have hblank : Blank [c] := List.forall_mem_singleton.2 hc
      have hpiece : trim (c :: piece) = trim piece := trim_blank_append hblank piece
      rw [List.modifyHead_cons, List.map_cons, List.map_cons, hpiece]

/-- Blanks around a text make no difference to its trimmed pieces. -/
theorem map_trim_splitOn_trim {sep : Char} (hsep : isBlank sep = false) (text : List Char) :
    ((trim text).splitOn sep).map trim = (text.splitOn sep).map trim := by
  obtain ⟨front, back, hfront, hback, htext⟩ := exists_blank_append_trim text
  have hnot : sep ∉ back := by
    intro hmem
    exact Bool.false_ne_true (hsep.symm.trans (hback sep hmem))
  obtain ⟨pieces, last, htrimmed, hlonger⟩ := exists_splitOn_append hnot (trim text)
  conv => rhs; rw [htext]
  rw [map_trim_splitOn_blank_append hsep hfront, htrimmed, hlonger, List.map_append,
    List.map_append, List.map_singleton, List.map_singleton, trim_append_blank last hback]

end RemoteEval.Text
