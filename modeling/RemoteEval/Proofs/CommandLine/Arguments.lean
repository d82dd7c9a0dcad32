import RemoteEval.CommandLine.Arguments

/-!
The namespace that arguments ask for. A value that names no namespace is refused where it stands,
so whatever arguments are carried out, the namespace in them resolves. It is so at each level after
every argument, since nothing but a value that has been read puts a namespace there.
-/
namespace RemoteEval

/-- What comes of two steps comes of the second, from what the first one answers. -/
theorem Except.ok_of_bind {ε α β : Type} {first : Except ε α} {second : α → Except ε β}
    {result : β} (h : (first >>= second) = .ok result) :
    ∃ between, first = .ok between ∧ second between = .ok result := by
  cases first with
  | error why => cases h
  | ok between => exact ⟨between, rfl, h⟩

def Namespace.Spec.Resolves (spec : Spec) : Prop := ∃ path, spec.resolve = .ok path

theorem Namespace.Spec.resolves_default : Spec.default.Resolves := ⟨Path.root, rfl⟩

/-- A spec is read only if it resolves. -/
theorem Namespace.Spec.resolves_of_parse {text : String} {spec : Spec}
    (h : Spec.parse text = .ok spec) : spec.Resolves := by
  unfold parse at h
  cases hresolve : (ofDotted text.toList).resolve with
  | error why =>
    simp only [hresolve] at h
    cases h
  | ok path =>
    simp only [hresolve] at h
    cases h
    exact ⟨path, hresolve⟩

namespace CommandLine

def Level.Resolved (l : Level) : Prop := ∀ spec, l.spec = some spec → spec.Resolves

namespace Level

variable {l m : Level}

theorem Resolved.fill (h : l.Resolved) {slot : Slot} {value : String}
    (hfill : l.fill slot value = .ok m) : m.Resolved := by
  unfold Level.fill at hfill
  split at hfill
  · cases hfill
  · split at hfill
    · cases hfill
    · split at hfill
      · cases hfill
        exact h
      · cases hfill
        exact h
      · cases hfill
        exact h
      · split at hfill
        · cases hfill
          exact h
        · cases hfill
      · split at hfill
        · next spec hparse =>
          cases hfill
          rintro other ⟨⟩
          exact Namespace.Spec.resolves_of_parse hparse
        · cases hfill

theorem Resolved.settle (h : l.Resolved) (hsettle : l.settle = .ok m) : m.Resolved := by
  unfold Level.settle at hsettle
  split at hsettle
  · cases hsettle
    exact h
  · cases hsettle
  · next slot value _ =>
    have hcleared : Resolved { l with pending := none } := h
    exact hcleared.fill hsettle

theorem Resolved.expect (h : l.Resolved) {setting : Setting} {attached : Option String}
    (hexpect : l.expect setting attached = .ok m) : m.Resolved := by
  obtain ⟨settled, hsettle, hrest⟩ := Except.ok_of_bind hexpect
  have hsettled := h.settle hsettle
  cases attached with
  | some value => exact hsettled.fill hrest
  | none =>
    cases hrest
    exact hsettled

theorem Resolved.turnOn (h : l.Resolved) {switch : Switch} (hturn : l.turnOn switch = .ok m) :
    m.Resolved := by
  obtain ⟨settled, hsettle, hrest⟩ := Except.ok_of_bind hturn
  have hsettled := h.settle hsettle
  cases switch with
  | help => cases hrest
  | version => cases hrest
  | notify =>
    simp only at hrest
    split at hrest
    · cases hrest
    · cases hrest
      exact hsettled
  | staged =>
    simp only at hrest
    split at hrest
    · cases hrest
    · cases hrest
      exact hsettled

theorem Resolved.readLong (h : l.Resolved) {name : String} {attached : Option String}
    (hread : l.readLong name attached = .ok m) : m.Resolved := by
  unfold Level.readLong at hread
  split at hread
  · cases hread
  · exact h.expect hread
  · split at hread
    · cases hread
    · exact h.turnOn hread

theorem Resolved.readShort (h : l.Resolved) {letters : List Char}
    (hread : l.readShort letters = .ok m) : m.Resolved := by
  induction letters generalizing l with
  | nil =>
    cases hread
    exact h
  | cons letter rest ih =>
    unfold Level.readShort at hread
    split at hread
    · cases hread
    · exact h.expect hread
    · obtain ⟨turned, hturn, hrest⟩ := Except.ok_of_bind hread
      exact ih (h.turnOn hturn) hrest

theorem Resolved.readPlain (h : l.Resolved) {afterEscape : Bool} {argument : String}
    (hread : l.readPlain afterEscape argument = .ok m) : m.Resolved := by
  unfold Level.readPlain at hread
  split at hread
  · split at hread <;> cases hread
  · split at hread
    · obtain ⟨settled, hsettle, hrest⟩ := Except.ok_of_bind hread
      have hsettled := h.settle hsettle
      cases hrest
      exact hsettled
    · cases hread

/-- Every argument that is read leaves a level at which the namespace resolves. -/
theorem Resolved.read (h : l.Resolved) {afterEscape : Bool} {arguments : List String}
    {found : Option (Subcommand × List String)}
    (hread : l.read afterEscape arguments = .ok (m, found)) : m.Resolved := by
  induction arguments generalizing l afterEscape with
  | nil =>
    cases hread
    exact h
  | cons argument rest ih =>
    unfold Level.read at hread
    split at hread
    · obtain ⟨next, hplain, hrest⟩ := Except.ok_of_bind hread
      exact ih (h.readPlain hplain) hrest
    · split at hread
      · cases hread
      · split at hread
        · cases hread
          exact h
        · split at hread
          · exact ih h hread
          · obtain ⟨next, hlong, hrest⟩ := Except.ok_of_bind hread
            exact ih (h.readLong hlong) hrest
          · obtain ⟨next, hshort, hrest⟩ := Except.ok_of_bind hread
            exact ih (h.readShort hshort) hrest
          · split at hread
            · have hgiven : (l.give argument).Resolved := h
              exact ih hgiven hread
            · obtain ⟨next, hplain, hrest⟩ := Except.ok_of_bind hread
              exact ih (h.readPlain hplain) hrest

end Level

theorem resolves_invocation {outer inner : Level} (houter : outer.Resolved)
    (hinner : inner.Resolved) (task : Option Task) :
    (invocation outer inner task).spec.Resolves := by
  unfold invocation
  cases hspec : inner.spec with
  | some spec => exact hinner spec hspec
  | none =>
    cases hother : outer.spec with
    | some spec => exact houter spec hother
    | none => exact Namespace.Spec.resolves_default

/-- Whatever arguments are carried out, the namespace in them resolves. -/
theorem resolves_of_parse {arguments : List String} {inv : Invocation}
    (h : parse arguments = .ok inv) : inv.spec.Resolves := by
  have hfresh : ∀ command, Level.Resolved { command } := by
    rintro command spec ⟨⟩
  obtain ⟨⟨outer, found⟩, hread, hrest⟩ := Except.ok_of_bind h
  have houter := (hfresh none).read hread
  cases found with
  | none =>
    obtain ⟨settled, hsettle, hinv⟩ := Except.ok_of_bind hrest
    cases hinv
    exact resolves_invocation (houter.settle hsettle) (hfresh none) none
  | some found =>
    obtain ⟨command, rest⟩ := found
    obtain ⟨⟨inner, left⟩, hinside, hrest⟩ := Except.ok_of_bind hrest
    obtain ⟨innermost, hinner, hrest⟩ := Except.ok_of_bind hrest
    obtain ⟨task, -, hrest⟩ := Except.ok_of_bind hrest
    obtain ⟨settled, hsettle, hinv⟩ := Except.ok_of_bind hrest
    cases hinv
    exact resolves_invocation (houter.settle hsettle)
      (((hfresh (some command)).read hinside).settle hinner) (some task)

end CommandLine

end RemoteEval
