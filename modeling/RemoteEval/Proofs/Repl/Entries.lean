import RemoteEval.Proofs.CommandLine.Arguments
import RemoteEval.Proofs.Text.Split
import RemoteEval.Repl.Loop

/-!
What entries come to, one after another: the namespace that they set, and what is sent of them. It
depends on their texts alone. An entry is a command if its first word starts with the word for
commands, whatever stands behind that in the word; every other entry that is not blank is code. A
namespace that is set resolves, and a namespace that resolves has a prompt that names it.
-/
namespace RemoteEval.Repl

open Text Namespace

def switched? (entry : String) : Option Spec :=
  match action entry with
  | .switch (.ok spec) => some spec
  | _ => none

def isCode (entry : String) : Bool :=
  match action entry with
  | .evaluate _ => true
  | _ => false

/-- The namespace after entries: the one that the last command among them that names one has set,
and if there is none, the one before. -/
def namespaceAfter (spec : Spec) (entries : List String) : Spec :=
  entries.foldl (fun spec entry => (switched? entry).getD spec) spec

def sends (spec : Spec) : List String → List (Spec × String)
  | [] => []
  | entry :: rest =>
    (if isCode entry then [(spec, entry)] else []) ++ sends ((switched? entry).getD spec) rest

theorem namespaceAfter_snoc (spec : Spec) (entries : List String) (entry : String) :
    namespaceAfter spec (entries ++ [entry]) =
      (switched? entry).getD (namespaceAfter spec entries) :=
  List.foldl_append

theorem sends_snoc (spec : Spec) (entries : List String) (entry : String) :
    sends spec (entries ++ [entry]) = sends spec entries ++
      if isCode entry then [(namespaceAfter spec entries, entry)] else [] := by
  induction entries generalizing spec with
  | nil => exact List.append_nil _
  | cons first rest ih =>
    rw [List.cons_append, sends, ih, sends, List.append_assoc]
    rfl

structure Taken (entry : String) : Prop where
  blank : trimmed entry = "" → action entry = .nothing
  nothing : action entry = .nothing → isCode entry = false ∧ switched? entry = none
  command : ∀ result, action entry = .switch result → isCode entry = false ∧
    switched? entry = result.toOption ∧
      ∃ rest, trim entry.toList = namespaceWord.toList ++ rest ∧
        result = Spec.parse (String.ofList rest)
  code : ∀ code, action entry = .evaluate code → isCode entry = true ∧ switched? entry = none ∧
    code = trimmed entry

theorem taken (entry : String) : Taken entry where
  blank := by
    intro hblank
    have hchars : trim entry.toList = [] := by
      have hlist := congrArg String.toList hblank
      rw [trimmed, String.toList_ofList] at hlist
      exact hlist
    simp [action, hchars]
  nothing := by
    intro haction
    simp [isCode, switched?, haction]
  command := by
    intro result haction
    refine ⟨by simp only [isCode, haction], ?_, ?_⟩
    · simp only [switched?, haction]
      cases result <;> rfl
    · unfold action at haction
      simp only at haction
      split at haction
      · cases haction
      · split at haction
        · next rest hrest =>
          cases haction
          exact ⟨rest, dropStart?_eq_some.1 hrest, rfl⟩
        · cases haction
  code := by
    intro code haction
    refine ⟨by simp only [isCode, haction], by simp only [switched?, haction], ?_⟩
    unfold action at haction
    simp only at haction
    split at haction
    · cases haction
    · split at haction
      · cases haction
      · cases haction
        rfl

def firstWord (entry : String) : List Char :=
  (trimStart entry.toList).takeWhile fun c => !isBlank c

/-- The blanks at the end of a text have no part in its first word. -/
theorem takeWhile_trimEnd (text : List Char) :
    ((trimEnd text).takeWhile fun c => !isBlank c) = text.takeWhile fun c => !isBlank c := by
  obtain ⟨tail, htext, hblanks⟩ := trimEnd_append_blanks text
  have htail : (tail.takeWhile fun c => !isBlank c) = [] := by
    cases tail with
    | nil => rfl
    | cons c tail => simp [hblanks c List.mem_cons_self]
  conv => rhs; rw [htext]
  rw [List.takeWhile_append, htail, List.append_nil]
  split
  · next hwhole => exact (List.takeWhile_prefix _).eq_of_length hwhole
  · rfl

theorem firstWord_eq (entry : String) :
    firstWord entry = (trim entry.toList).takeWhile fun c => !isBlank c :=
  (takeWhile_trimEnd (trimStart entry.toList)).symm

/-- A text that is not blank starts with a word. -/
theorem firstWord_eq_nil_iff (entry : String) : firstWord entry = [] ↔ trim entry.toList = [] := by
  constructor
  · intro hword
    have hstart : trimStart entry.toList = [] := by
      cases hrest : trimStart entry.toList with
      | nil => rfl
      | cons c rest =>
        have hc : isBlank c = false := by
          have hhead := List.head?_dropWhile_not isBlank entry.toList
          rw [← trimStart, hrest] at hhead
          simpa using hhead
        simp [firstWord, hrest, hc] at hword
    rw [trim, hstart]
    rfl
  · intro htrim
    rw [firstWord_eq, htrim]
    rfl

/-- A text starts with a word without blanks if its first word does. -/
theorem prefix_firstWord_iff {word : List Char} (hword : ∀ c ∈ word, isBlank c = false)
    (entry : String) : word <+: firstWord entry ↔ word <+: trim entry.toList := by
  rw [firstWord_eq]
  constructor
  · exact fun h => h.trans (List.takeWhile_prefix _)
  · rintro ⟨rest, hrest⟩
    rw [← hrest, List.takeWhile_append_of_pos fun c hc => by simp [hword c hc]]
    exact List.prefix_append _ _

structure Sorted (entry : String) : Prop where
  blank : action entry = .nothing ↔ firstWord entry = []
  command : (∃ result, action entry = .switch result) ↔
    namespaceWord.toList <+: firstWord entry
  code : isCode entry = true ↔
    firstWord entry ≠ [] ∧ ¬ namespaceWord.toList <+: firstWord entry
  keeps : isCode entry = true → switched? entry = none

theorem sorted (entry : String) : Sorted entry := by
  have hword : ∀ c ∈ namespaceWord.toList, isBlank c = false := by
    intro c hc
    have hall : (namespaceWord.toList.all fun c => !isBlank c) = true := by decide
    simpa using List.all_eq_true.1 hall c hc
  have hprefix := prefix_firstWord_iff hword entry
  have hempty := firstWord_eq_nil_iff entry
  cases haction : action entry with
  | nothing =>
    have hblank : trim entry.toList = [] := by
      unfold action at haction
      simp only at haction
      split at haction
      · next hnil => exact List.isEmpty_iff.1 hnil
      · split at haction <;> cases haction
    have hnone : firstWord entry = [] := hempty.2 hblank
    have hcode := ((taken entry).nothing haction).1
    refine ⟨by simp [haction, hnone], ?_, by simp [hcode, hnone], by simp [hcode]⟩
    rw [haction, hnone]
    exact iff_of_false (by simp) (by decide)
  | switch result =>
    obtain ⟨hcode, -, rest, htrim, -⟩ := (taken entry).command result haction
    have hstarts : namespaceWord.toList <+: firstWord entry := hprefix.2 ⟨rest, htrim.symm⟩
    have hsome : firstWord entry ≠ [] := by
      intro hnil
      rw [hnil] at hstarts
      exact absurd hstarts (by decide)
    exact ⟨by simp [haction, hsome], by simp [haction, hstarts], by simp [hcode, hstarts],
      by simp [hcode]⟩
  | evaluate code =>
    obtain ⟨hcode, hswitched, -⟩ := (taken entry).code code haction
    have hboth : trim entry.toList ≠ [] ∧ ¬ namespaceWord.toList <+: trim entry.toList := by
      unfold action at haction
      simp only at haction
      split at haction
      · cases haction
      · next hsome =>
        split at haction
        · cases haction
        · next hnone =>
          refine ⟨fun hnil => hsome (List.isEmpty_iff.2 hnil), ?_⟩
          rintro ⟨rest, hrest⟩
          rw [← hrest, dropStart?_append] at hnone
          cases hnone
    rw [← hprefix, Ne, ← hempty] at hboth
    exact ⟨by simp [haction, hboth.1], by simp [haction, hboth.2], by simp [hcode, hboth],
      fun _ => hswitched⟩

theorem resolves_of_switch {entry : String} {spec : Spec}
    (h : action entry = .switch (.ok spec)) : spec.Resolves := by
  obtain ⟨-, -, rest, -, hparse⟩ := (taken entry).command _ h
  exact Spec.resolves_of_parse hparse.symm

/-- The first character of a path with dots starts its first segment. -/
theorem startsIdentifier_of_dotted {path : Path} {c : Char} {rest : List Char}
    (h : path.dotted.toList = c :: rest) : startsIdentifier c = true := by
  obtain ⟨segments, hnonempty, hidentifiers⟩ := path
  cases segments with
  | nil => exact absurd rfl hnonempty
  | cons first more =>
    have hfirst := hidentifiers first List.mem_cons_self
    unfold isIdentifier at hfirst
    split at hfirst
    · cases hfirst
    · next start left hstart =>
      have hhead : ∃ tail, (Path.dotted ⟨first :: more, hnonempty, hidentifiers⟩).toList =
          start :: tail := by
        rw [Path.dotted, String.toList_intercalate, List.map_cons, hstart]
        cases more with
        | nil => exact ⟨left, by simp⟩
        | cons second others =>
          rw [List.map_cons, List.intercalate_cons_cons]
          exact ⟨_, rfl⟩
      obtain ⟨tail, hhead⟩ := hhead
      rw [hhead] at h
      cases h
      exact (Bool.and_eq_true_iff.1 hfirst).1

/-- The prompt names a namespace that resolves. -/
theorem prompt_ne_fallback {spec : Spec} (h : spec.Resolves) : prompt spec ≠ "?> " := by
  obtain ⟨path, hpath⟩ := h
  intro hprompt
  have hchars : path.dotted.toList ++ ['>', ' '] = ['?', '>', ' '] := by
    rw [prompt, hpath] at hprompt
    have htext := congrArg String.toList hprompt
    rw [String.toList_append] at htext
    exact htext
  have hdotted : path.dotted.toList = ['?'] := List.append_cancel_right hchars
  have hstart := startsIdentifier_of_dotted hdotted
  exact absurd hstart (by decide +kernel)

/-- Every prompt ends in a blank. -/
theorem prompt_getLast (spec : Spec) : (prompt spec).toList.getLast? = some ' ' := by
  unfold prompt
  split
  · rw [String.toList_append, List.getLast?_append]
    rfl
  · rfl

theorem prompt_ne_ok (spec : Spec) : prompt spec ≠ "ok\n" := by
  intro h
  have hlast := prompt_getLast spec
  rw [h] at hlast
  exact absurd hlast (by decide)

theorem readFailure_ne {text : String} (h : text.toList.head? ≠ some 'E') (why : String) :
    readFailure why ≠ text := by
  rintro rfl
  refine h ?_
  unfold readFailure
  rw [String.toList_append, String.toList_append]
  rfl

end RemoteEval.Repl
