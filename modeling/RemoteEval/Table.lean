import RemoteEval.Error

/-!
The table of requests that wait for their response. Each id stands in it at most once. An entry
comes in when its request is registered and goes out exactly once: when it is completed, or when
the table is drained.
-/
namespace RemoteEval

/-- Entries under distinct ids, in the order in which they came in. -/
structure Table (α : Type) where
  entries : List (RequestId × α)
  distinct : (entries.map Prod.fst).Nodup

namespace Table

variable {α : Type}

def empty : Table α := ⟨[], List.nodup_nil⟩

def ids (t : Table α) : List RequestId := t.entries.map Prod.fst

def size (t : Table α) : Nat := t.entries.length

def isEmpty (t : Table α) : Bool := t.entries.isEmpty

def get? (t : Table α) (id : RequestId) : Option α := t.entries.lookup id

def register (t : Table α) (id : RequestId) (value : α) : Except Error (Table α) :=
  if h : id ∈ t.ids then .error (.duplicateId id)
  else
    .ok ⟨t.entries ++ [(id, value)], by
      rw [List.map_append, List.nodup_append]
      refine ⟨t.distinct, by simp, ?_⟩
      rintro a ha b hb rfl
      simp only [List.map_cons, List.map_nil, List.mem_singleton] at hb
      subst hb
      exact h ha⟩

def erase (t : Table α) (id : RequestId) : Table α :=
  ⟨t.entries.filter fun entry => entry.1 != id,
    t.distinct.sublist (List.filter_sublist.map Prod.fst)⟩

def complete (t : Table α) (id : RequestId) : Option α × Table α := (t.get? id, t.erase id)

def drain (t : Table α) : List (RequestId × α) × Table α := (t.entries, empty)

end Table

end RemoteEval
