import Mathlib.Data.List.Nodup
import RemoteEval.Proofs.Client.Standing

/-!
The ledger of a run. Every call to send has a standing, and no other id occurs. Distinct ids are
assumed of the calls only; that the table and the queue hold no id twice follows.
-/
namespace RemoteEval

def caller (calls : List Attempt) (id : RequestId) : Option Attempt :=
  calls.find? fun a => a.id == id

theorem caller_eq {calls : List Attempt} (hids : (calls.map Attempt.id).Nodup) {a : Attempt}
    (ha : a ∈ calls) : caller calls a.id = some a := by
  cases hcaller : caller calls a.id with
  | none =>
    have hnot := List.find?_eq_none.1 hcaller a ha
    simp at hnot
  | some b =>
    have hid : b.id = a.id := by simpa using List.find?_some hcaller
    have hb := List.mem_of_find?_eq_some hcaller
    rw [List.inj_on_of_nodup_map hids hb ha hid]

/-- Every call to send has a standing, and no other id is known. -/
structure Ledger (calls : List Attempt) (c : Client) (history : List Moment) : Prop where
  standing : ∀ a ∈ calls, Standing a (c.place a.id) history
  absent : ∀ id, id ∉ calls.map Attempt.id → Absent id (c.place id) history

namespace Ledger

variable {calls : List Attempt} {c : Client} {history : List Moment}

theorem new (connection : Connection) (config : Config) (stager : Stager) (scratch : Scratch) :
    Ledger [] (Client.new connection config stager scratch) [] where
  standing := by
    intro a ha
    cases ha
  absent := by
    intro id hid
    exact ⟨rfl, rfl, rfl⟩

theorem submit (h : Ledger calls c history) {a : Attempt} (hfresh : a.id ∉ calls.map Attempt.id) :
    Ledger (calls ++ [a]) (c.step (.submit a)).1 (history ++ c.happens (.submit a)) where
  standing := by
    intro b hb
    rcases List.mem_append.1 hb with hb | hb
    · have hne : a.id ≠ b.id := by
        intro heq
        exact hfresh (heq ▸ List.mem_map_of_mem hb)
      exact (h.standing b hb).turn (c.submit_turn hne)
    · cases List.mem_singleton.1 hb
      exact (h.absent a.id hfresh).call (c.submit_call a)
  absent := by
    intro id hid
    rw [List.map_append, List.mem_append, not_or] at hid
    have hne : a.id ≠ id := by
      intro heq
      exact hid.2 (List.mem_singleton.2 heq.symm)
    exact (h.absent id hid.1).turn (c.submit_turn hne)

theorem step (h : Ledger calls c history) {s : Step}
    (hids : ((calls ++ s.attempt?.toList).map Attempt.id).Nodup) :
    Ledger (calls ++ s.attempt?.toList) (c.step s).1 (history ++ c.happens s) := by
  cases hattempt : s.attempt? with
  | none =>
    have hother : ∀ id a, s = .submit a → a.id ≠ id := by
      rintro id a rfl
      cases hattempt
    rw [Option.toList_none, List.append_nil]
    exact ⟨fun a ha => (h.standing a ha).turn (c.step_turn (hother a.id)),
      fun id hid => (h.absent id hid).turn (c.step_turn (hother id))⟩
  | some a =>
    cases s with
    | submit b =>
      cases hattempt
      rw [Step.attempt?, Option.toList_some, List.map_append, List.nodup_append] at hids
      refine h.submit ?_
      intro hmem
      exact hids.2.2 a.id hmem a.id (List.mem_singleton_self a.id) rfl
    | _ => cases hattempt

/-- Over a run the ledger goes on, if no two calls have the same id. -/
theorem run (h : Ledger calls c history) {steps : List Step}
    (hids : ((calls ++ attempts steps).map Attempt.id).Nodup) :
    Ledger (calls ++ attempts steps) (c.run steps).1 (history ++ c.history steps) := by
  induction steps generalizing calls c history with
  | nil =>
    rw [attempts, List.filterMap_nil, List.append_nil, Client.history, List.append_nil]
    exact h
  | cons s rest ih =>
    have hcalls : calls ++ attempts (s :: rest) =
        (calls ++ s.attempt?.toList) ++ attempts rest := by
      rw [attempts_cons, List.append_assoc]
    rw [hcalls] at hids ⊢
    rw [Client.history, ← List.append_assoc]
    refine ih (h.step ?_) hids
    rw [List.map_append] at hids
    exact (List.nodup_append.1 hids).1

/-- Every moment in the life of a request is one of a call. -/
theorem mem_calls (h : Ledger calls c history) {id : RequestId} {moment : Moment}
    (hmem : moment ∈ dealings id history) : ∃ a ∈ calls, a.id = id := by
  by_contra hnone
  have hid : id ∉ calls.map Attempt.id := by
    intro hid
    exact hnone (List.mem_map.1 hid)
  rw [(h.absent id hid).dealings_nil] at hmem
  cases hmem

theorem once (h : Ledger calls c history) (id : RequestId) :
    ((dealings id history).filterMap Moment.registered?).length ≤ 1 ∧
      ((dealings id history).filterMap Moment.finished?).length ≤ 1 := by
  by_cases hid : id ∈ calls.map Attempt.id
  · obtain ⟨a, ha, rfl⟩ := List.mem_map.1 hid
    exact (h.standing a ha).once
  · simp [(h.absent id hid).dealings_nil]

theorem of_registered (h : Ledger calls c history) (hids : (calls.map Attempt.id).Nodup)
    {request : Request} {inflight : Inflight} {written : List UInt8}
    (hmem : .registered request inflight written ∈ history) :
    ∃ a ∈ calls, a.id = request.id ∧ caller calls request.id = some a ∧ inflight.Of a ∧
      (c.closed = true → ∃ completion, .finished a.id inflight completion ∈ history) := by
  have hdealt : .registered request inflight written ∈ dealings request.id history :=
    List.mem_filter.2 ⟨hmem, beq_self_eq_true request.id⟩
  obtain ⟨a, ha, hid⟩ := h.mem_calls hdealt
  rw [← hid] at hdealt ⊢
  obtain ⟨hof, hended⟩ := (h.standing a ha).of_registered hdealt
  refine ⟨a, ha, rfl, caller_eq hids ha, hof, ?_⟩
  intro hclosed
  obtain ⟨completion, hfinished⟩ := hended hclosed
  exact ⟨completion, (List.mem_filter.1 hfinished).1⟩

theorem of_finished (h : Ledger calls c history) (hids : (calls.map Attempt.id).Nodup)
    {id : RequestId} {inflight : Inflight} {completion : Completion}
    (hmem : .finished id inflight completion ∈ history) :
    ∃ a ∈ calls, a.id = id ∧ caller calls id = some a ∧ inflight.Of a ∧
      ∃ request written, request.id = a.id ∧ .registered request inflight written ∈ history := by
  have hdealt : .finished id inflight completion ∈ dealings id history :=
    List.mem_filter.2 ⟨hmem, beq_self_eq_true id⟩
  obtain ⟨a, ha, rfl⟩ := h.mem_calls hdealt
  obtain ⟨hof, request, written, hregistered⟩ := (h.standing a ha).of_finished hdealt
  obtain ⟨hhistory, habout⟩ := List.mem_filter.1 hregistered
  have hid : request.id = a.id := by simpa [Moment.about] using habout
  exact ⟨a, ha, rfl, caller_eq hids ha, hof, request, written, hid, hhistory⟩

end Ledger

end RemoteEval
