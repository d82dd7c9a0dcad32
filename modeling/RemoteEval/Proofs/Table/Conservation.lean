import Mathlib.Data.List.Nodup
import RemoteEval.Proofs.Table

/-!
Every entry that a table takes in comes out of it once, or is still there. What is asked of one id
is answered from the entry of that id and changes no other, so the table is a finite map, and what
is asked of two ids may be asked in either order.
-/
namespace RemoteEval.Table

variable {α : Type}

inductive EntryOperation (α : Type) where
  | register (value : α)
  | lookup
  | complete

inductive Operation (α : Type) where
  | entry (id : RequestId) (what : EntryOperation α)
  | ids
  | drain

inductive Answer (α : Type) where
  | registered (result : Except Error Unit)
  | value (value? : Option α)
  | ids (ids : List RequestId)
  | drained (entries : List (RequestId × α))

/-- The answer of a table, and the table from then on. One that refuses an entry stays as it is. -/
def perform (t : Table α) : Operation α → Answer α × Table α
  | .entry id (.register value) =>
    match t.register id value with
    | .ok u => (.registered (.ok ()), u)
    | .error e => (.registered (.error e), t)
  | .entry id .lookup => (.value (t.get? id), t)
  | .entry id .complete => (.value (t.complete id).1, (t.complete id).2)
  | .ids => (.ids t.ids, t)
  | .drain => (.drained t.drain.1, t.drain.2)

def performAll (t : Table α) : List (Operation α) → List (Operation α × Answer α) × Table α
  | [] => ([], t)
  | operation :: operations =>
    let (answer, next) := t.perform operation
    let (history, last) := next.performAll operations
    ((operation, answer) :: history, last)

def accepted : Operation α × Answer α → List (RequestId × α)
  | (.entry id (.register value), .registered (.ok ())) => [(id, value)]
  | _ => []

def returned : Operation α × Answer α → List (RequestId × α)
  | (.entry id .complete, .value (some value)) => [(id, value)]
  | (.drain, .drained entries) => entries
  | _ => []

def EntryOperation.apply (id : RequestId) : EntryOperation α → Option α → Answer α × Option α
  | .register value, none => (.registered (.ok ()), some value)
  | .register _, some old => (.registered (.error (.duplicateId id)), some old)
  | .lookup, value? => (.value value?, value?)
  | .complete, value? => (.value value?, none)

theorem mem_entries_iff (t : Table α) (id : RequestId) (value : α) :
    (id, value) ∈ t.entries ↔ t.get? id = some value := by
  constructor
  · intro hmem
    have hfilter : (id, value) ∈ t.entries.filter fun entry => entry.1 == id :=
      List.mem_filter.2 ⟨hmem, beq_self_eq_true id⟩
    rw [filter_entries] at hfilter
    simpa using hfilter
  · exact mem_of_get?

theorem mem_ids_iff (t : Table α) (id : RequestId) : id ∈ t.ids ↔ (t.get? id).isSome = true := by
  rw [Option.isSome_iff_ne_none, ne_eq, get?_eq_none_iff, not_not]

/-- Two tables that give each id the same entry hold the same entries. -/
theorem entries_perm_of_get? {t u : Table α} (h : ∀ id, t.get? id = u.get? id) :
    t.entries.Perm u.entries := by
  apply (List.perm_ext_iff_of_nodup t.distinct.of_map u.distinct.of_map).2
  rintro ⟨id, value⟩
  rw [mem_entries_iff, mem_entries_iff, h]

theorem perform_register_of_some {t : Table α} {id : RequestId} {old : α} (value : α)
    (h : t.get? id = some old) :
    t.perform (.entry id (.register value)) = (.registered (.error (.duplicateId id)), t) := by
  have hmem : id ∈ t.ids := (mem_ids_iff t id).2 (by rw [h]; rfl)
  rw [perform, register_of_mem value hmem]

theorem perform_register_of_none {t : Table α} {id : RequestId} (value : α)
    (h : t.get? id = none) :
    ∃ u, t.perform (.entry id (.register value)) = (.registered (.ok ()), u) ∧
      u.entries = t.entries ++ [(id, value)] := by
  obtain ⟨u, hregister, hentries⟩ := register_of_not_mem value ((get?_eq_none_iff t id).1 h)
  refine ⟨u, ?_, hentries⟩
  rw [perform, hregister]

/-- An operation on an id is answered from the entry of that id and leaves every other entry. -/
theorem perform_entry (t : Table α) (id : RequestId) (what : EntryOperation α) :
    (t.perform (.entry id what)).1 = (what.apply id (t.get? id)).1 ∧
      ∀ other, (t.perform (.entry id what)).2.get? other =
        if other = id then (what.apply id (t.get? id)).2 else t.get? other := by
  cases what with
  | register value =>
    cases hget : t.get? id with
    | none =>
      obtain ⟨u, hperform, hentries⟩ := perform_register_of_none value hget
      rw [hperform]
      exact ⟨rfl, get?_of_entries_append ((get?_eq_none_iff t id).1 hget) hentries⟩
    | some old =>
      rw [perform_register_of_some value hget]
      refine ⟨rfl, fun other => ?_⟩
      by_cases hother : other = id
      · rw [if_pos hother, hother, hget]
        rfl
      · rw [if_neg hother]
  | lookup =>
    refine ⟨rfl, fun other => ?_⟩
    by_cases hother : other = id
    · rw [if_pos hother, hother]
      rfl
    · rw [if_neg hother]
      rfl
  | complete => exact ⟨rfl, get?_erase t id⟩

/-- Operations on two ids do not see each other: in either order they give the same answers and
leave the same entries. -/
theorem perform_comm (t : Table α) {first second : RequestId} (hne : first ≠ second)
    (one other : EntryOperation α) :
    ((t.perform (.entry second other)).2.perform (.entry first one)).1 =
        (t.perform (.entry first one)).1 ∧
      ((t.perform (.entry first one)).2.perform (.entry second other)).2.entries.Perm
        ((t.perform (.entry second other)).2.perform (.entry first one)).2.entries := by
  obtain ⟨hone, hafterOne⟩ := perform_entry t first one
  obtain ⟨-, hafterOther⟩ := perform_entry t second other
  obtain ⟨hlate, hafterLate⟩ := perform_entry (t.perform (.entry second other)).2 first one
  obtain ⟨-, hafterLast⟩ := perform_entry (t.perform (.entry first one)).2 second other
  -- The entry of each id is still the one that it had before the other operation.
  rw [hafterOther, if_neg hne] at hlate hafterLate
  rw [hafterOne, if_neg hne.symm] at hafterLast
  refine ⟨hlate.trans hone.symm, entries_perm_of_get? fun id => ?_⟩
  rw [hafterLate, hafterLast, hafterOne, hafterOther]
  by_cases hfirst : id = first
  · have hsecond : id ≠ second := hfirst ▸ hne
    rw [if_pos hfirst, if_neg hsecond, if_pos hfirst]
  · rw [if_neg hfirst, if_neg hfirst]

/-- One operation takes out or leaves what was there, with what it has put in. -/
theorem perform_conserves (t : Table α) (operation : Operation α) :
    (returned (operation, (t.perform operation).1) ++ (t.perform operation).2.entries).Perm
      (t.entries ++ accepted (operation, (t.perform operation).1)) := by
  have hsame : t.entries.Perm (t.entries ++ []) := by rw [List.append_nil]
  cases operation with
  | ids => exact hsame
  | drain => exact List.Perm.refl _
  | entry id what =>
    cases what with
    | lookup => exact hsame
    | register value =>
      cases hget : t.get? id with
      | some old =>
        rw [perform_register_of_some value hget]
        exact hsame
      | none =>
        obtain ⟨u, hperform, hentries⟩ := perform_register_of_none value hget
        rw [hperform]
        exact List.Perm.of_eq hentries
    | complete =>
      change (returned (.entry id .complete, .value (t.get? id)) ++ (t.erase id).entries).Perm
        (t.entries ++ [])
      rw [List.append_nil]
      cases hget : t.get? id with
      | some value => exact (entries_perm_erase hget).symm
      | none =>
        apply entries_perm_of_get?
        intro other
        rw [get?_erase]
        by_cases hother : other = id
        · rw [if_pos hother, hother, hget]
        · rw [if_neg hother]

theorem performAll_conserves (t : Table α) (operations : List (Operation α)) :
    ((t.performAll operations).1.flatMap returned ++ (t.performAll operations).2.entries).Perm
      (t.entries ++ (t.performAll operations).1.flatMap accepted) := by
  induction operations generalizing t with
  | nil => simp [performAll]
  | cons operation operations ih =>
    have hstep := perform_conserves t operation
    have hrest := ih (t.perform operation).2
    simp only [performAll, List.flatMap_cons, List.append_assoc]
    apply (hrest.append_left _).trans
    simpa only [List.append_assoc] using hstep.append_right _

/-- Whatever is asked of a table from its beginning on, the entries that have come out of it and
those that are in it are the entries that it has accepted. It refuses an entry exactly if the id has
one, and stays as it is; it lists each id that has an entry once; draining leaves nothing; and
operations on two ids give the same answers and the same entries in either order. -/
theorem entries_are_conserved (operations : List (Operation α)) :
    let history := (empty.performAll operations).1
    let t := (empty.performAll operations).2
    (history.flatMap returned ++ t.entries).Perm (history.flatMap accepted) ∧
    (∀ id value, (id, value) ∈ t.entries ↔ t.get? id = some value) ∧
    (∀ id value,
      (t.get? id).isSome = true ∧
          t.perform (.entry id (.register value)) = (.registered (.error (.duplicateId id)), t) ∨
        t.get? id = none ∧
          (t.perform (.entry id (.register value))).1 = .registered (.ok ())) ∧
    (∀ id, t.ids.count id = if (t.get? id).isSome then 1 else 0) ∧
    t.size = t.ids.length ∧
    (t.perform .drain).2 = empty ∧
    ∀ first second one other, first ≠ second →
      ((t.perform (.entry second other)).2.perform (.entry first one)).1 =
          (t.perform (.entry first one)).1 ∧
        ((t.perform (.entry first one)).2.perform (.entry second other)).1 =
          (t.perform (.entry second other)).1 ∧
        ((t.perform (.entry first one)).2.perform (.entry second other)).2.entries.Perm
          ((t.perform (.entry second other)).2.perform (.entry first one)).2.entries := by
  intro history t
  refine ⟨performAll_conserves empty operations, mem_entries_iff t, ?_, ?_, ?_, rfl, ?_⟩
  · intro id value
    cases hget : t.get? id with
    | some old => exact .inl ⟨rfl, perform_register_of_some value hget⟩
    | none =>
      obtain ⟨u, hperform, -⟩ := perform_register_of_none value hget
      exact .inr ⟨rfl, by rw [hperform]⟩
  · intro id
    have hdistinct : t.ids.Nodup := t.distinct
    rw [hdistinct.count]
    simp only [mem_ids_iff]
  · exact (List.length_map Prod.fst).symm
  · intro first second one other hne
    obtain ⟨hone, hperm⟩ := perform_comm t hne one other
    exact ⟨hone, (perform_comm t hne.symm other one).1, hperm⟩

/-- An id that comes in, is refused, goes out and comes in again, and another beside it. -/
theorem entries_are_conserved_when_registered_again :
    let operations : List (Operation Nat) := [.entry "1" (.register 5), .entry "1" (.register 6),
      .entry "1" .complete, .entry "1" (.register 7)]
    let history := (empty.performAll operations).1
    let t := (empty.performAll operations).2
    history.flatMap returned = [("1", 5)] ∧ t.entries = [("1", 7)] ∧
      (history.flatMap returned ++ t.entries).Perm (history.flatMap accepted) ∧
      ((t.perform (.entry "2" (.register 8))).2.perform (.entry "1" .complete)).1 =
        (t.perform (.entry "1" .complete)).1 := by
  intro operations history t
  obtain ⟨hperm, -, -, -, -, -, hcomm⟩ := entries_are_conserved operations
  exact ⟨by decide, by decide, hperm, (hcomm "1" "2" .complete (.register 8) (by decide)).1⟩

end RemoteEval.Table
