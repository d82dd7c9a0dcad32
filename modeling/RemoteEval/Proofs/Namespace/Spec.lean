import RemoteEval.Namespace.Spec
import RemoteEval.Proofs.Namespace.Path
import RemoteEval.Repl.Entry

/-!
Ways to write a namespace. A spec stands for a list of names, and it resolves exactly if these make
up a path, whichever way it was written: as one name, as a list, in JSON, or as text with dots. Text
with dots is read exactly if it resolves; the names are then its pieces between the dots, without
the blanks around them.
-/
namespace RemoteEval

open Text Namespace

structure Proper (names : List String) : Prop where
  nonempty : names ≠ []
  identifiers : ∀ name ∈ names, isIdentifier name = true

namespace Path

theorem proper (path : Path) : Proper path.segments := ⟨path.nonempty, path.identifiers⟩

theorem ofSegments_eq_ok_iff {names : List String} {path : Path} :
    ofSegments names = .ok path ↔ path.segments = names := by
  constructor
  · intro h
    unfold ofSegments at h
    split at h
    · cases h
    · split at h
      · cases h
      · cases h
        rfl
  · rintro rfl
    exact ofSegments_segments path

theorem exists_ofSegments_iff {names : List String} :
    (∃ path, ofSegments names = .ok path) ↔ Proper names := by
  constructor
  · rintro ⟨path, hpath⟩
    exact ofSegments_eq_ok_iff.1 hpath ▸ path.proper
  · rintro ⟨hnonempty, hidentifiers⟩
    exact ⟨⟨names, hnonempty, hidentifiers⟩, ofSegments_eq_ok_iff.2 rfl⟩

theorem ofSegments_root : ofSegments [rootName] = .ok root := ofSegments_segments root

end Path

namespace Namespace.Spec

def names : Spec → List String
  | .default => [rootName]
  | .list [] => [rootName]
  | .symbol name => [name]
  | .list names => names

theorem resolve_eq (spec : Spec) : spec.resolve = Path.ofSegments spec.names := by
  cases spec with
  | default => exact Path.ofSegments_root.symm
  | symbol name => rfl
  | list names =>
    cases names with
    | nil => exact Path.ofSegments_root.symm
    | cons name names => rfl

theorem names_list {names : List String} (h : names ≠ []) : (Spec.list names).names = names := by
  cases names with
  | nil => exact absurd rfl h
  | cons name names => rfl

theorem resolve_eq_ok_iff {spec : Spec} {path : Path} :
    spec.resolve = .ok path ↔ path.segments = spec.names := by
  rw [resolve_eq, Path.ofSegments_eq_ok_iff]

/-- A list of names resolves to the path that they make up. -/
theorem resolve_list (path : Path) : (Spec.list path.segments).resolve = .ok path :=
  resolve_eq_ok_iff.2 (names_list path.nonempty).symm

theorem resolve_symbol {path : Path} {name : String} (h : path.segments = [name]) :
    (Spec.symbol name).resolve = .ok path :=
  resolve_eq_ok_iff.2 h

/-- An array of strings is read as the list of them. -/
theorem ofJson_strings (names : List String) :
    ofJson (.array (names.map fun name => .string (some name))) = .ok (.list names) := by
  have hnames : (names.map fun name => Json.string (some name)).mapM nameOfJson = .ok names := by
    induction names with
    | nil => rfl
    | cons name names ih =>
      rw [List.map_cons, List.mapM_cons, ih]
      rfl
  rw [ofJson, hnames]
  rfl

def pieces (text : List Char) : List String :=
  (text.splitOn '.').map fun piece => String.ofList (trim piece)

theorem pieces_trim (text : List Char) : pieces (trim text) = pieces text := by
  have htrim := congrArg (List.map String.ofList)
    (map_trim_splitOn_trim (show isBlank '.' = false by decide) text)
  rwa [List.map_map, List.map_map] at htrim

theorem pieces_ne_nil (text : List Char) : pieces text ≠ [] := by
  rw [pieces, ne_eq, List.map_eq_nil_iff]
  exact List.splitOn_ne_nil _ _

theorem ofDotted_of_blank {text : List Char} (h : Blank text) : ofDotted text = .default := by
  rw [ofDotted, trim_eq_nil_iff.2 h]

/-- Text with dots stands for its pieces, however many there are. -/
theorem names_ofDotted {text : List Char} (h : ¬ Blank text) :
    (ofDotted text).names = pieces text := by
  rw [← pieces_trim]
  unfold ofDotted
  split
  · next hnil => exact absurd (trim_eq_nil_iff.1 hnil) h
  · rw [pieces]
    split
    · next name hname => exact hname.symm
    · exact names_list (pieces_ne_nil (trim text))

/-- Text is read as a spec exactly if the spec resolves. -/
theorem parse_eq_ok_iff {text : String} {spec : Spec} :
    parse text = .ok spec ↔ spec = ofDotted text.toList ∧ ∃ path, spec.resolve = .ok path := by
  change (ofDotted text.toList).resolve.map (fun _ => ofDotted text.toList) = .ok spec ↔ _
  constructor
  · intro h
    cases hresolve : (ofDotted text.toList).resolve with
    | error why =>
      rw [hresolve] at h
      cases h
    | ok path =>
      rw [hresolve] at h
      cases h
      exact ⟨rfl, path, hresolve⟩
  · rintro ⟨rfl, path, hresolve⟩
    rw [hresolve]
    rfl

/-- The pieces of names with dots between them are the names. -/
theorem pieces_dotted (path : Path) : pieces path.dotted.toList = path.segments := by
  have hsplit : path.dotted.toList.splitOn '.' = path.segments.map String.toList := by
    rw [Path.dotted, String.toList_intercalate]
    refine List.splitOn_intercalate '.' ?_ (by simpa using path.nonempty)
    intro letters hletters
    obtain ⟨name, hname, rfl⟩ := List.mem_map.1 hletters
    exact dot_not_mem (path.identifiers name hname)
  rw [pieces, hsplit, List.map_map]
  refine (List.map_congr_left ?_).trans (List.map_id _)
  intro name hname
  have hblank := path.identifiers name hname
  have htrim : trim name.toList = name.toList := by
    apply trim_eq_self
    · exact fun c hc => isBlank_of_mem hblank (List.mem_of_mem_head? hc)
    · exact fun c hc => isBlank_of_mem hblank (List.mem_of_getLast? hc)
  rw [Function.comp_apply, htrim]
  exact String.ofList_toList

theorem not_blank_dotted (path : Path) : ¬ Blank path.dotted.toList := by
  intro hblank
  -- A blank text is one blank piece or several, and an identifier is none.
  have hpieces := pieces_trim path.dotted.toList
  rw [trim_eq_nil_iff.2 hblank, pieces_dotted] at hpieces
  have hempty : pieces [] = [""] := rfl
  have hname := path.identifiers "" (by rw [← hpieces, hempty]; exact List.mem_singleton_self _)
  cases hname

/-- The names of a path with dots between them are read as the path. -/
theorem parse_dotted (path : Path) :
    ∃ spec, parse path.dotted = .ok spec ∧ spec.resolve = .ok path := by
  have hresolve : (ofDotted path.dotted.toList).resolve = .ok path := by
    rw [resolve_eq_ok_iff, names_ofDotted (not_blank_dotted path), pieces_dotted]
  exact ⟨_, parse_eq_ok_iff.2 ⟨rfl, path, hresolve⟩, hresolve⟩

structure ReadDotted (text : String) : Prop where
  read : (∃ spec, parse text = .ok spec) ↔
    Blank text.toList ∨ ∀ name ∈ pieces text.toList, isIdentifier name = true
  resolves : ∀ spec, parse text = .ok spec → ∃ path, spec.resolve = .ok path ∧
    (Blank text.toList → path = Path.root) ∧
    (¬ Blank text.toList → path.segments = pieces text.toList)

theorem readDotted (text : String) : ReadDotted text where
  read := by
    by_cases hblank : Blank text.toList
    · refine iff_of_true ⟨.default, parse_eq_ok_iff.2 ⟨?_, Path.root, rfl⟩⟩ (.inl hblank)
      exact (ofDotted_of_blank hblank).symm
    · rw [or_iff_right hblank]
      have hproper : (∃ path, (ofDotted text.toList).resolve = .ok path) ↔
          Proper (pieces text.toList) := by
        simp only [resolve_eq, names_ofDotted hblank, Path.exists_ofSegments_iff]
      constructor
      · rintro ⟨spec, hparse⟩
        obtain ⟨rfl, hresolves⟩ := parse_eq_ok_iff.1 hparse
        exact (hproper.1 hresolves).identifiers
      · intro hidentifiers
        exact ⟨_, parse_eq_ok_iff.2
          ⟨rfl, hproper.2 ⟨pieces_ne_nil text.toList, hidentifiers⟩⟩⟩
  resolves := by
    intro spec hparse
    obtain ⟨rfl, path, hresolve⟩ := parse_eq_ok_iff.1 hparse
    refine ⟨path, hresolve, ?_, ?_⟩
    · intro hblank
      rw [ofDotted_of_blank hblank] at hresolve
      cases hresolve
      rfl
    · intro hblank
      rw [resolve_eq_ok_iff.1 hresolve, names_ofDotted hblank]

structure Spellings (path : Path) : Prop where
  list : (Spec.list path.segments).resolve = .ok path
  json : ∃ spec, ofJson (.array (path.segments.map fun name => .string (some name))) = .ok spec ∧
    spec.resolve = .ok path
  dotted : ∃ spec, parse (".".intercalate path.segments) = .ok spec ∧ spec.resolve = .ok path
  prompt : ∀ spec : Spec, spec.resolve = .ok path →
    Repl.prompt spec = ".".intercalate path.segments ++ "> "
  symbol : ∀ name, path.segments = [name] → (Spec.symbol name).resolve = .ok path
  json_symbol : ∀ name, path.segments = [name] →
    ∃ spec, ofJson (.string (some name)) = .ok spec ∧ spec.resolve = .ok path

theorem spellings (path : Path) : Spellings path where
  list := resolve_list path
  json := ⟨_, ofJson_strings path.segments, resolve_list path⟩
  dotted := parse_dotted path
  prompt := by
    intro spec hresolve
    rw [Repl.prompt, hresolve]
    rfl
  symbol name hname := resolve_symbol hname
  json_symbol name hname := ⟨.symbol name, rfl, resolve_symbol hname⟩

/-- Text with dots is read exactly if it is blank or its pieces are identifiers, and it then
resolves to the path of its pieces; all ways to write a path resolve to the path. -/
theorem all_spellings_agree :
    (∀ text : String, ReadDotted text) ∧ ∀ path : Path, Spellings path :=
  ⟨readDotted, spellings⟩

end Namespace.Spec

end RemoteEval
