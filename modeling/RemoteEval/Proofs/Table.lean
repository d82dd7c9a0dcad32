import RemoteEval.Table

/-!
Looking up ids in the table of waiting requests. Registering and erasing one id leave every other
id as it was, and an id has at most one entry.
-/
namespace RemoteEval.Table

variable {α : Type}

/-- The entries under an id are the one that is looked up, if no id occurs twice. -/
theorem filter_eq_lookup {entries : List (RequestId × α)} (hdistinct : (entries.map Prod.fst).Nodup)
    (id : RequestId) :
    (entries.filter fun entry => entry.1 == id) =
      (entries.lookup id).toList.map fun value => (id, value) := by
  induction entries with
  | nil => rfl
  | cons entry rest ih =>
    obtain ⟨key, value⟩ := entry
    rw [List.map_cons, List.nodup_cons] at hdistinct
    rw [List.lookup_cons]
    by_cases hid : key = id
    · subst hid
      have hrest : (rest.filter fun other => other.1 == key) = [] := by
        rw [List.filter_eq_nil_iff]
        intro other hother hsame
        exact hdistinct.1 (List.mem_map.2 ⟨other, hother, by simpa using hsame⟩)
      simp [hrest]
    · have hkey : (id == key) = false := by simpa using Ne.symm hid
      rw [List.filter_cons_of_neg (by simpa using hid), hkey]
      exact ih hdistinct.2

theorem lookup_filter_ne (entries : List (RequestId × α)) (id other : RequestId) :
    (entries.filter fun entry => entry.1 != id).lookup other =
      if other = id then none else entries.lookup other := by
  induction entries with
  | nil => simp
  | cons entry rest ih =>
    obtain ⟨key, value⟩ := entry
    by_cases hkey : key = id
    · rw [List.filter_cons_of_neg (by simpa using hkey), ih]
      by_cases hother : other = id
      · simp [hother]
      · have hne : (other == key) = false := by simpa [hkey] using hother
        simp [hother, List.lookup_cons, hne]
    · rw [List.filter_cons_of_pos (by simpa using hkey), List.lookup_cons, List.lookup_cons, ih]
      by_cases hother : other = id
      · have hne : (id == key) = false := by simpa using Ne.symm hkey
        simp [hother, hne]
      · simp [hother]

theorem get?_eq_none_iff (t : Table α) (id : RequestId) : t.get? id = none ↔ id ∉ t.ids := by
  unfold get? ids
  simp only [List.lookup_eq_none_iff, bne_iff_ne, List.mem_map, not_exists, not_and]
  constructor
  · intro h entry hentry hid
    exact h entry hentry hid.symm
  · intro h entry hentry hid
    exact h entry hentry hid.symm

theorem isSome_get? {t : Table α} {id : RequestId} (h : id ∈ t.ids) : (t.get? id).isSome := by
  rw [Option.isSome_iff_ne_none]
  intro hnone
  exact (get?_eq_none_iff t id).1 hnone h

theorem filter_entries (t : Table α) (id : RequestId) :
    (t.entries.filter fun entry => entry.1 == id) =
      (t.get? id).toList.map fun value => (id, value) :=
  filter_eq_lookup t.distinct id

theorem mem_of_get? {t : Table α} {id : RequestId} {value : α} (h : t.get? id = some value) :
    (id, value) ∈ t.entries := by
  have hfilter := filter_entries t id
  rw [h, Option.toList_some, List.map_singleton] at hfilter
  exact (List.mem_filter.1 (hfilter ▸ List.mem_singleton_self (id, value))).1

theorem register_of_not_mem {t : Table α} {id : RequestId} (value : α) (h : id ∉ t.ids) :
    ∃ u, t.register id value = .ok u ∧ u.entries = t.entries ++ [(id, value)] := by
  unfold register
  rw [dif_neg h]
  exact ⟨_, rfl, rfl⟩

theorem register_of_mem {t : Table α} {id : RequestId} (value : α) (h : id ∈ t.ids) :
    t.register id value = .error (.duplicateId id) := by
  unfold register
  rw [dif_pos h]

/-- Erasing an id takes its entry out and no other. -/
theorem entries_perm_erase {t : Table α} {id : RequestId} {value : α}
    (h : t.get? id = some value) : t.entries.Perm ((id, value) :: (t.erase id).entries) := by
  have hsplit := List.filter_append_perm (fun entry : RequestId × α => entry.1 == id) t.entries
  rw [filter_entries, h, Option.toList_some, List.map_singleton] at hsplit
  exact hsplit.symm

theorem get?_of_entries_append {t u : Table α} {id : RequestId} {value : α} (h : id ∉ t.ids)
    (hentries : u.entries = t.entries ++ [(id, value)]) (other : RequestId) :
    u.get? other = if other = id then some value else t.get? other := by
  have hnone := (get?_eq_none_iff t id).2 h
  unfold get? at hnone ⊢
  rw [hentries, List.lookup_append]
  by_cases hother : other = id
  · subst hother
    simp [hnone]
  · have hne : (other == id) = false := by simpa using hother
    simp [hother, List.lookup_cons, hne]

theorem get?_erase (t : Table α) (id other : RequestId) :
    (t.erase id).get? other = if other = id then none else t.get? other :=
  lookup_filter_ne t.entries id other

end RemoteEval.Table
