import RemoteEval.Proofs.Namespace.Spec

/-!
The form of a path's literal: names behind colons, with commas between them and brackets around
them. Blanks may stand around the literal and around each of its items, and nowhere else. A text is
read as a path exactly if it has this form, and the path has the names that the form gives.
-/
namespace RemoteEval

open Text Namespace

inductive ItemForm (name : String) : List Char → Prop where
  | mk {front back : List Char} (hfront : Blank front) (hname : isIdentifier name = true)
      (hback : Blank back) : ItemForm name (front ++ (':' :: name.toList ++ back))

inductive ItemsForm : List String → List Char → Prop where
  | last {name : String} {text : List Char} (hitem : ItemForm name text) : ItemsForm [name] text
  | cons {name : String} {names : List String} {text rest : List Char}
      (hitem : ItemForm name text) (hrest : ItemsForm names rest) :
      ItemsForm (name :: names) (text ++ ',' :: rest)

inductive LiteralForm (names : List String) : List Char → Prop where
  | mk {front inner back : List Char} (hfront : Blank front) (hitems : ItemsForm names inner)
      (hback : Blank back) : LiteralForm names (front ++ ('[' :: inner ++ [']'] ++ back))

theorem ItemForm.comma_not_mem {name : String} {text : List Char} (h : ItemForm name text) :
    ',' ∉ text := by
  cases h with
  | mk hfront hname hback =>
    have hblank : isBlank ',' = false := by decide
    simp only [List.mem_append, List.mem_cons, not_or]
    refine ⟨?_, ⟨by decide, Namespace.comma_not_mem hname⟩, ?_⟩
    · exact fun hmem => Bool.false_ne_true (hblank.symm.trans (hfront _ hmem))
    · exact fun hmem => Bool.false_ne_true (hblank.symm.trans (hback _ hmem))

/-- What is read between two commas, if it is an identifier. -/
theorem segment?_eq_some_iff {item : List Char} {name : String} (h : isIdentifier name = true) :
    Path.segment? item = some name ↔ ItemForm name item := by
  constructor
  · intro hread
    obtain ⟨rest, hrest, rfl⟩ := Option.map_eq_some_iff.1 hread
    obtain ⟨front, back, hfront, hback, hitem⟩ := exists_blank_append_trim item
    rw [dropStart?_eq_some.1 hrest] at hitem
    rw [hitem]
    have hform := ItemForm.mk hfront h hback
    rwa [String.toList_ofList] at hform
  · rintro ⟨hfront, -, hback⟩
    have hlast : ∀ c ∈ (':' :: name.toList).getLast?, isBlank c = false := by
      intro c hc
      rcases List.mem_cons.1 (List.mem_of_getLast? hc) with rfl | hname
      · decide
      · exact isBlank_of_mem h hname
    have hhead : ∀ c ∈ (':' :: name.toList).head?, isBlank c = false := by
      rintro c ⟨⟩
      decide
    rw [Path.segment?, trim_append hfront hback hhead hlast]
    exact congrArg some String.ofList_toList

theorem ItemForm.identifier {name : String} {text : List Char} (h : ItemForm name text) :
    isIdentifier name = true := by
  cases h with
  | mk hfront hname hback => exact hname

theorem ItemsForm.names_ne_nil {names : List String} {text : List Char} (h : ItemsForm names text) :
    names ≠ [] := by
  cases h with
  | last hitem => exact List.cons_ne_nil _ _
  | cons hitem hrest => exact List.cons_ne_nil _ _

theorem ItemsForm.identifiers {names : List String} {text : List Char} (h : ItemsForm names text) :
    ∀ name ∈ names, isIdentifier name = true := by
  induction h with
  | last hitem => exact List.forall_mem_singleton.2 hitem.identifier
  | cons hitem hrest ih => exact List.forall_mem_cons.2 ⟨hitem.identifier, ih⟩

/-- Items are read one by one. -/
theorem ItemsForm.mapM_segment? {names : List String} {text : List Char}
    (h : ItemsForm names text) : (text.splitOn ',').mapM Path.segment? = some names := by
  induction h with
  | last hitem =>
    have hread := (segment?_eq_some_iff hitem.identifier).2 hitem
    rw [List.splitOn_eq_singleton hitem.comma_not_mem, List.mapM_cons, hread]
    rfl
  | cons hitem hrest ih =>
    have hread := (segment?_eq_some_iff hitem.identifier).2 hitem
    rw [List.splitOn_append_cons_self_of_not_mem hitem.comma_not_mem, List.mapM_cons, hread, ih]
    rfl

/-- Pieces that are read as identifiers are the items between commas. -/
theorem itemsForm_intercalate {pieces : List (List Char)} {names : List String}
    (hne : pieces ≠ []) (hread : pieces.mapM Path.segment? = some names)
    (hnames : ∀ name ∈ names, isIdentifier name = true) :
    ItemsForm names ([','].intercalate pieces) := by
  induction pieces generalizing names with
  | nil => exact absurd rfl hne
  | cons piece pieces ih =>
    rw [List.mapM_cons] at hread
    obtain ⟨name, hname, hrest⟩ := Option.bind_eq_some_iff.1 hread
    obtain ⟨others, hothers, heq⟩ := Option.bind_eq_some_iff.1 hrest
    cases heq
    obtain ⟨hfirst, hmore⟩ := List.forall_mem_cons.1 hnames
    have hitem := (segment?_eq_some_iff hfirst).1 hname
    cases pieces with
    | nil =>
      cases hothers
      rw [List.intercalate_singleton]
      exact .last hitem
    | cons second pieces =>
      rw [List.intercalate_cons_cons, List.append_assoc, List.singleton_append]
      exact .cons hitem (ih (List.cons_ne_nil second pieces) hothers hmore)

namespace Path

theorem decode_of_form {path : Path} {text : String}
    (h : LiteralForm path.segments text.toList) : decode text = .ok path := by
  generalize htext : text.toList = letters at h
  obtain ⟨hfront, hitems, hback⟩ := h
  rename_i front inner back
  have hhead : ∀ c ∈ ('[' :: inner ++ [']']).head?, isBlank c = false := by
    rintro c ⟨⟩
    decide
  have hlast : ∀ c ∈ ('[' :: inner ++ [']']).getLast?, isBlank c = false := by
    rw [List.getLast?_concat]
    rintro c ⟨⟩
    decide
  have hinner : (dropStart? ['['] ('[' :: inner ++ [']'])).bind (dropEnd? [']']) = some inner :=
    dropEnd?_append inner [']']
  rw [decode, htext, trim_append hfront hback hhead hlast, hinner]
  simp only [hitems.mapM_segment?]
  exact ofSegments_segments path

theorem form_of_decode {path : Path} {text : String} (h : decode text = .ok path) :
    LiteralForm path.segments text.toList := by
  unfold decode at h
  split at h
  · cases h
  · next inner hinner =>
    split at h
    · cases h
    · next names hnames =>
      rw [← ofSegments_eq_ok_iff.1 h] at hnames
      obtain ⟨rest, hstart, hend⟩ := Option.bind_eq_some_iff.1 hinner
      have htrim : trim text.toList = '[' :: inner ++ [']'] := by
        rw [dropStart?_eq_some.1 hstart, dropEnd?_eq_some.1 hend]
        rfl
      have hitems := itemsForm_intercalate (List.splitOn_ne_nil _ _) hnames path.identifiers
      rw [List.intercalate_splitOn] at hitems
      obtain ⟨front, back, hfront, hback, htext⟩ := exists_blank_append_trim text.toList
      rw [htrim] at htext
      rw [htext]
      exact .mk hfront hitems hback

theorem decode_eq_ok_iff {text : String} {path : Path} :
    decode text = .ok path ↔ LiteralForm path.segments text.toList :=
  ⟨form_of_decode, decode_of_form⟩

/-- Behind a comma a blank is written, so blanks may stand in front. -/
theorem itemsForm_items {segments : List String} (hne : segments ≠ [])
    (h : ∀ s ∈ segments, isIdentifier s = true) {front : List Char} (hfront : Blank front) :
    ItemsForm segments (front ++ items segments) := by
  induction segments generalizing front with
  | nil => exact absurd rfl hne
  | cons s segments ih =>
    obtain ⟨hs, hmore⟩ := List.forall_mem_cons.1 h
    have hitem : ItemForm s (front ++ (':' :: s.toList ++ [])) :=
      .mk hfront hs (List.forall_mem_nil _)
    rw [List.append_nil] at hitem
    cases segments with
    | nil =>
      rw [items_singleton]
      exact .last hitem
    | cons second more =>
      have hrest := ih (List.cons_ne_nil second more) hmore
        (List.forall_mem_singleton.2 (show isBlank ' ' = true by decide))
      have hsplit : front ++ items (s :: second :: more) =
          (front ++ ':' :: s.toList) ++ ',' :: ([' '] ++ items (second :: more)) := by
        rw [items_cons_cons]
        simp
      rw [hsplit]
      exact .cons hitem hrest

/-- What is written for a path is a literal with its segments. -/
theorem literalForm_encode (path : Path) : LiteralForm path.segments path.encode.toList := by
  have hitems := itemsForm_items path.nonempty path.identifiers (List.forall_mem_nil _)
  have hform : LiteralForm path.segments _ :=
    .mk (List.forall_mem_nil _) hitems (List.forall_mem_nil _)
  rw [List.nil_append, List.nil_append, List.append_nil] at hform
  rw [toList_encode]
  exact hform

/-- A path that was written is read back. -/
theorem decode_encode (path : Path) : decode path.encode = .ok path :=
  decode_eq_ok_iff.2 path.literalForm_encode

theorem names_of_form {names : List String} {text : List Char} (h : LiteralForm names text) :
    Proper names := by
  cases h with
  | mk hfront hitems hback => exact ⟨hitems.names_ne_nil, hitems.identifiers⟩

structure ReadLiteral (text : String) : Prop where
  read : (∃ path, decode text = .ok path) ↔ ∃ names, LiteralForm names text.toList
  segments : ∀ path names, decode text = .ok path → LiteralForm names text.toList →
    path.segments = names
  proper : ∀ path, decode text = .ok path → Proper path.segments
  again : ∀ path, decode text = .ok path → decode path.encode = decode text

theorem readLiteral (text : String) : ReadLiteral text where
  read := by
    constructor
    · rintro ⟨path, hdecode⟩
      exact ⟨path.segments, decode_eq_ok_iff.1 hdecode⟩
    · rintro ⟨names, hform⟩
      obtain ⟨path, hpath⟩ := exists_ofSegments_iff.2 (names_of_form hform)
      obtain rfl := ofSegments_eq_ok_iff.1 hpath
      exact ⟨path, decode_eq_ok_iff.2 hform⟩
  segments := by
    intro path names hdecode hform
    obtain ⟨other, hother⟩ := exists_ofSegments_iff.2 (names_of_form hform)
    obtain rfl := ofSegments_eq_ok_iff.1 hother
    rw [decode_eq_ok_iff.2 hform] at hdecode
    cases hdecode
    rfl
  proper path _ := path.proper
  again := by
    intro path hdecode
    rw [decode_encode, hdecode]

/-- A path that was written is read back, and a text is read exactly if it has the form of a
literal. All other paths are made of names, and only of names that are proper. -/
theorem literals_are_read_by_form :
    (∀ path : Path, decode path.encode = .ok path) ∧ (∀ text, ReadLiteral text) ∧
      (∀ names path, ofSegments names = .ok path ↔ Proper names ∧ path.segments = names) ∧
      (∀ (spec : Spec) path, spec.resolve = .ok path ↔
        Proper spec.names ∧ path.segments = spec.names) ∧
      Proper root.segments := by
  have hmade : ∀ (names : List String) (path : Path),
      path.segments = names ↔ Proper names ∧ path.segments = names := by
    rintro names path
    exact ⟨fun h => ⟨h ▸ path.proper, h⟩, And.right⟩
  refine ⟨decode_encode, readLiteral, ?_, ?_, root.proper⟩
  · exact fun names path => ofSegments_eq_ok_iff.trans (hmade names path)
  · exact fun spec path => Spec.resolve_eq_ok_iff.trans (hmade spec.names path)

end Path

end RemoteEval
