import RemoteEval.Scratch

/-!
Files in the scratch directory. Files come in at the end and are taken out by their paths; taking
out some leaves the others where they are, and one that is gone already is no matter.
-/
namespace RemoteEval.Scratch

def removeAll (s : Scratch) (paths : List String) : Scratch := paths.foldl remove s

theorem removeAll_append (s : Scratch) (first second : List String) :
    s.removeAll (first ++ second) = (s.removeAll first).removeAll second :=
  List.foldl_append

theorem removeAll_toList (s : Scratch) (path : Option String) :
    s.removeAll path.toList = path.elim s s.remove := by
  cases path <;> rfl

/-- One thing after another takes its file with it. -/
theorem removeAll_filterMap_cons {α : Type} (s : Scratch) (file : α → Option String) (first : α)
    (rest : List α) : s.removeAll ((first :: rest).filterMap file) =
      ((file first).elim s s.remove).removeAll (rest.filterMap file) := by
  rw [List.filterMap_cons]
  cases file first <;> rfl

theorem has_remove (s : Scratch) (path other : String) :
    (s.remove path).has other = true ↔ s.has other = true ∧ other ≠ path := by
  simp only [has, remove, List.any_eq_true, List.mem_filter, bne_iff_ne, beq_iff_eq]
  constructor
  · rintro ⟨file, ⟨hfile, hpath⟩, rfl⟩
    exact ⟨⟨file, hfile, rfl⟩, hpath⟩
  · rintro ⟨⟨file, hfile, rfl⟩, hpath⟩
    exact ⟨file, ⟨hfile, hpath⟩, rfl⟩

theorem has_removeAll (s : Scratch) (paths : List String) (path : String) :
    (s.removeAll paths).has path = true ↔ s.has path = true ∧ path ∉ paths := by
  induction paths generalizing s with
  | nil => simp [removeAll]
  | cons first rest ih =>
    change ((s.remove first).removeAll rest).has path = true ↔ _
    rw [ih, has_remove, List.mem_cons, not_or, and_assoc]

theorem dir_removeAll (s : Scratch) (paths : List String) :
    (s.removeAll paths).toScratchDir = s.toScratchDir := by
  induction paths generalizing s with
  | nil => rfl
  | cons first rest ih => exact ih (s.remove first)

theorem has_append (s : Scratch) (added : List (String × String)) (path : String) :
    has { s with files := s.files ++ added } path = true ↔
      s.has path = true ∨ path ∈ added.map Prod.fst := by
  simp [has, List.any_append]

theorem files_remove_subset (s : Scratch) (path : String) : (s.remove path).files ⊆ s.files :=
  List.filter_sublist.subset

theorem files_removeAll_subset (s : Scratch) (paths : List String) :
    (s.removeAll paths).files ⊆ s.files := by
  induction paths generalizing s with
  | nil => exact List.Subset.refl _
  | cons first rest ih => exact List.Subset.trans (ih (s.remove first)) (s.files_remove_subset first)

/-- A file that is there has contents. -/
theorem lookup_of_has {s : Scratch} {path : String} (h : s.has path = true) :
    ∃ text, s.files.lookup path = some text ∧ (path, text) ∈ s.files := by
  have hfound : s.files.lookup path ≠ none := by
    intro hnone
    obtain ⟨file, hfile, hpath⟩ := List.any_eq_true.1 h
    rw [List.lookup_eq_none_iff] at hnone
    have hother := hnone file hfile
    rw [beq_iff_eq] at hpath
    simp [hpath] at hother
  obtain ⟨text, htext⟩ := Option.ne_none_iff_exists'.1 hfound
  obtain ⟨before, after, hsplit, -⟩ := List.lookup_eq_some_iff.1 htext
  refine ⟨text, htext, ?_⟩
  rw [hsplit]
  exact List.mem_append_right _ List.mem_cons_self

end RemoteEval.Scratch
