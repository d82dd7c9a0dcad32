import RemoteEval.Literal
import RemoteEval.Namespace.Path
import RemoteEval.Proofs.Text.Split

/-!
Paths as they are written. The characters of identifiers are neither blanks nor controls, and no
mark of the written form is one of them. So a path that was written holds no control character, and
no mark of a request but those it is given.
-/
namespace RemoteEval

open Text

namespace Namespace

def unnamed : Ranges := (0x0, 0x1f) :: (0x7f, 0x9f) :: (0x2c, 0x2c) :: blanks

theorem letters_disjoint : ∀ r ∈ letters, ∀ o ∈ unnamed, r.2 < o.1 ∨ o.2 < r.1 := by
  decide +kernel

theorem numerals_disjoint : ∀ r ∈ numerals, ∀ o ∈ unnamed, r.2 < o.1 ∨ o.2 < r.1 := by
  decide +kernel

theorem not_unnamed_of_continues {c : Char} (h : continuesIdentifier c = true) :
    unnamed.has c = false := by
  simp only [continuesIdentifier, Bool.or_eq_true, beq_iff_eq] at h
  rcases h with ((hletter | hnumeral) | rfl) | rfl
  · exact letters.not_has_of_disjoint unnamed c letters_disjoint hletter
  · exact numerals.not_has_of_disjoint unnamed c numerals_disjoint hnumeral
  · decide
  · decide

theorem continues_of_mem {name : String} (h : isIdentifier name = true) {c : Char}
    (hc : c ∈ name.toList) : continuesIdentifier c = true := by
  unfold isIdentifier at h
  split at h
  · cases h
  · next start rest hname =>
    rw [Bool.and_eq_true] at h
    rw [hname, List.mem_cons] at hc
    rcases hc with rfl | hrest
    · have hstart := h.1
      simp only [startsIdentifier, Bool.or_eq_true] at hstart
      rcases hstart with hletter | hline
      · simp [continuesIdentifier, hletter]
      · simp [continuesIdentifier, hline]
    · exact List.all_eq_true.1 h.2 c hrest

theorem not_unnamed_of_mem {name : String} (h : isIdentifier name = true) {c : Char}
    (hc : c ∈ name.toList) : unnamed.has c = false :=
  not_unnamed_of_continues (continues_of_mem h hc)

theorem isBlank_of_mem {name : String} (h : isIdentifier name = true) {c : Char}
    (hc : c ∈ name.toList) : isBlank c = false := by
  have hunnamed := not_unnamed_of_mem h hc
  simp only [unnamed, Ranges.has, List.any_cons, Bool.or_eq_false_iff] at hunnamed
  exact hunnamed.2.2.2

theorem isControl_of_mem {name : String} (h : isIdentifier name = true) {c : Char}
    (hc : c ∈ name.toList) : Literal.isControl c = false := by
  have hunnamed := not_unnamed_of_mem h hc
  simp only [unnamed, Ranges.has, List.any_cons, Bool.or_eq_false_iff, Bool.and_eq_false_iff,
    decide_eq_false_iff_not] at hunnamed
  simp only [Literal.isControl, Bool.or_eq_false_iff, Bool.and_eq_false_iff,
    decide_eq_false_iff_not]
  omega

theorem comma_not_mem {name : String} (h : isIdentifier name = true) : ',' ∉ name.toList := by
  intro hc
  exact absurd (not_unnamed_of_mem h hc) (by decide)

theorem dot_not_mem {name : String} (h : isIdentifier name = true) : '.' ∉ name.toList := by
  intro hc
  exact absurd (continues_of_mem h hc) (by decide +kernel)

end Namespace

namespace Path

open Namespace

def items (segments : List String) : List Char :=
  [',', ' '].intercalate (segments.map fun s => ':' :: s.toList)

theorem toList_encode (path : Path) : path.encode.toList = '[' :: (items path.segments ++ [']']) := by
  have hcolon : (String.toList ∘ fun s => ":" ++ s) = fun s => ':' :: s.toList := by
    funext s
    exact String.toList_append
  have hitems : (", ".intercalate (path.segments.map fun s => ":" ++ s)).toList =
      items path.segments := by
    rw [String.toList_intercalate, List.map_map, hcolon]
    rfl
  rw [encode, String.toList_append, String.toList_append, hitems]
  rfl

theorem items_singleton (s : String) : items [s] = ':' :: s.toList := by
  simp [items]

theorem items_cons_cons (s second : String) (more : List String) :
    items (s :: second :: more) = ':' :: (s.toList ++ ',' :: ' ' :: items (second :: more)) := by
  simp [items, List.intercalate_cons_cons]

theorem isControl_of_mem_items {segments : List String}
    (h : ∀ s ∈ segments, isIdentifier s = true) {c : Char} (hc : c ∈ items segments) :
    Literal.isControl c = false := by
  induction segments with
  | nil => simp [items] at hc
  | cons s segments ih =>
    simp only [List.forall_mem_cons] at h
    cases segments with
    | nil =>
      rw [items_singleton, List.mem_cons] at hc
      rcases hc with rfl | hs
      · rfl
      · exact isControl_of_mem h.1 hs
    | cons second more =>
      rw [items_cons_cons, List.mem_cons, List.mem_append, List.mem_cons, List.mem_cons] at hc
      rcases hc with rfl | hs | rfl | rfl | hrest
      · rfl
      · exact isControl_of_mem h.1 hs
      · rfl
      · rfl
      · exact ih h.2 hrest

/-- A path is written without control characters. -/
theorem isControl_of_mem_encode {path : Path} {c : Char} (h : c ∈ path.encode.toList) :
    Literal.isControl c = false := by
  rw [toList_encode, List.mem_cons, List.mem_append, List.mem_singleton] at h
  rcases h with rfl | hitems | rfl
  · rfl
  · exact isControl_of_mem_items path.identifiers hitems
  · rfl

/-- A comma in a path is followed by a blank and a colon, so a mark that starts with a comma and
goes on in another way is not found in a path. -/
theorem breakAt?_items {segments : List String} (h : ∀ s ∈ segments, isIdentifier s = true)
    {mark text before after : List Char} (hmark : ∀ rest, ¬ ',' :: mark <+: ',' :: ' ' :: ':' :: rest)
    (htext : breakAt? (',' :: mark) text = some (before, after)) :
    breakAt? (',' :: mark) (items segments ++ text) = some (items segments ++ before, after) := by
  induction segments with
  | nil => exact htext
  | cons s segments ih =>
    simp only [List.forall_mem_cons] at h
    have hword : ',' ∉ ':' :: s.toList := by simp [comma_not_mem h.1]
    cases segments with
    | nil =>
      rw [items_singleton]
      exact breakAt?_word hword htext
    | cons second more =>
      have hcolon : ∃ rest, items (second :: more) = ':' :: rest := by
        cases more with
        | nil => exact ⟨_, items_singleton second⟩
        | cons third more => exact ⟨_, items_cons_cons second third more⟩
      obtain ⟨rest, hrest⟩ := hcolon
      have hblank := breakAt?_cons_of_ne (by decide : ',' ≠ ' ') (ih h.2)
      have hcomma := breakAt?_cons (c := ',') (by
        rw [hrest]
        exact hmark (rest ++ text)) hblank
      rw [items_cons_cons, ← List.cons_append, List.append_assoc, List.append_assoc]
      exact breakAt?_word hword hcomma

end Path

end RemoteEval
