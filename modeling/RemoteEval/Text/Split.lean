/-!
Cutting texts: at the ends, at the first place where a text occurs in another, and at every
place where a character occurs.
-/
namespace RemoteEval.Text

def dropStart? : List Char → List Char → Option (List Char)
  | [], text => some text
  | _ :: _, [] => none
  | s :: start, c :: text => if s = c then dropStart? start text else none

def dropEnd? (tail text : List Char) : Option (List Char) :=
  (dropStart? tail.reverse text.reverse).map List.reverse

def breakAt? (mark : List Char) : List Char → Option (List Char × List Char)
  | [] => (dropStart? mark []).map ([], ·)
  | c :: text =>
    match dropStart? mark (c :: text) with
    | some rest => some ([], rest)
    | none => (breakAt? mark text).map fun (before, after) => (c :: before, after)

theorem dropStart?_eq_some {start text rest : List Char} :
    dropStart? start text = some rest ↔ text = start ++ rest := by
  induction start generalizing text with
  | nil => simp [dropStart?]
  | cons s start ih =>
    cases text with
    | nil => simp [dropStart?]
    | cons c text =>
      by_cases h : s = c
      · subst h; simp [dropStart?, ih]
      · simp [dropStart?, h, Ne.symm h]

theorem dropEnd?_eq_some {tail text rest : List Char} :
    dropEnd? tail text = some rest ↔ text = rest ++ tail := by
  rw [dropEnd?, Option.map_eq_some_iff]
  constructor
  · rintro ⟨r, h, rfl⟩
    have := congrArg List.reverse (dropStart?_eq_some.1 h)
    simpa using this
  · rintro rfl
    exact ⟨rest.reverse, dropStart?_eq_some.2 (by simp), by simp⟩

/-- The first occurrence cuts the text in two around the mark. -/
theorem eq_append_of_breakAt? {mark text before after : List Char}
    (h : breakAt? mark text = some (before, after)) : text = before ++ mark ++ after := by
  induction text generalizing before with
  | nil =>
    simp only [breakAt?, Option.map_eq_some_iff, Prod.mk.injEq] at h
    obtain ⟨rest, hrest, rfl, rfl⟩ := h
    simpa using dropStart?_eq_some.1 hrest
  | cons c text ih =>
    rw [breakAt?] at h
    split at h
    · next rest hrest =>
      simp only [Option.some.injEq, Prod.mk.injEq] at h
      obtain ⟨rfl, rfl⟩ := h
      simpa using dropStart?_eq_some.1 hrest
    · simp only [Option.map_eq_some_iff, Prod.mk.injEq, Prod.exists] at h
      obtain ⟨b, a, hb, rfl, rfl⟩ := h
      simp [ih hb]

end RemoteEval.Text
