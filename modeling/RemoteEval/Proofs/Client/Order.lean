import Mathlib.Data.List.Basic
import RemoteEval.Proofs.Client.Change

/-!
The order of requests. Requests come in as their calls do, wait in the queue, and are taken from
its front; so what has been registered and what waits are, one behind the other, requests of the
calls in their order. What the table holds has been registered.
-/
namespace RemoteEval

open scoped List

def Moment.entry? : Moment → Option (Request × Inflight)
  | .registered request inflight _ => some (request, inflight)
  | _ => none

def entries (moments : List Moment) : List (Request × Inflight) :=
  moments.filterMap Moment.entry?

def tracking (entry : Request × Inflight) : RequestId × Inflight := (entry.1.id, entry.2)

theorem entries_append (first second : List Moment) :
    entries (first ++ second) = entries first ++ entries second :=
  List.filterMap_append

theorem mem_entries {moments : List Moment} {entry : Request × Inflight} :
    entry ∈ entries moments ↔ ∃ written, .registered entry.1 entry.2 written ∈ moments := by
  rw [entries, List.mem_filterMap]
  constructor
  · rintro ⟨moment, hmoment, hentry⟩
    cases moment with
    | registered request inflight written =>
      cases hentry
      exact ⟨written, hmoment⟩
    | _ => cases hentry
  · rintro ⟨written, hmoment⟩
    exact ⟨_, hmoment, rfl⟩

theorem entries_ids (moments : List Moment) :
    (entries moments).map (fun entry => entry.1.id) = moments.filterMap Moment.registered? := by
  rw [entries, List.map_filterMap]
  refine List.filterMap_congr ?_
  intro moment _
  cases moment <;> rfl

namespace Client

def waiting (c : Client) : List (Request × Inflight) := c.queue.filterMap Command.entry?

theorem waiting_eq_nil {c : Client} (hqueue : c.queue = []) : c.waiting = [] := by
  rw [waiting, hqueue]
  rfl

theorem waiting_cons {c : Client} {command : Command} {rest : List Command}
    (hqueue : c.queue = command :: rest) :
    c.waiting = command.entry?.toList ++ { c with queue := rest }.waiting := by
  rw [waiting, hqueue, List.filterMap_cons]
  cases command.entry? <;> rfl

/-- The request that the loop is to take next waits. -/
theorem mem_waiting {c : Client} {request : Request} {inflight : Inflight} {rest : List Command}
    (hqueue : c.queue = .send request inflight :: rest) : (request, inflight) ∈ c.waiting := by
  rw [waiting_cons hqueue]
  exact List.mem_cons_self

theorem refusals_eq (c : Client) : c.queue.filterMap Command.refusal =
    c.waiting.map fun entry => .answered entry.1.id (.error .connectionClosed) := by
  rw [waiting, List.map_filterMap]
  refine List.filterMap_congr ?_
  intro command _
  cases command <;> rfl

def made (c : Client) (calls : List Attempt) : List (Request × Inflight) :=
  calls.filterMap fun a => (c.checked a).toOption

theorem made_append (c : Client) (first second : List Attempt) :
    c.made (first ++ second) = c.made first ++ c.made second :=
  List.filterMap_append

theorem made_congr {c d : Client} (h : d.checked = c.checked) : d.made = c.made := by
  funext calls
  rw [made, h, made]

theorem made_of_checked {c : Client} {a : Attempt} {entry : Request × Inflight}
    (h : c.checked a = .ok entry) : c.made [a] = [entry] := by
  simp [made, h, Except.toOption]

theorem made_of_refused {c : Client} {a : Attempt} {why : Error}
    (h : c.checked a = .error why) : c.made [a] = [] := by
  simp [made, h, Except.toOption]

theorem mem_made {c : Client} {calls : List Attempt} {entry : Request × Inflight} :
    entry ∈ c.made calls ↔ ∃ a ∈ calls, c.checked a = .ok entry := by
  rw [made, List.mem_filterMap]
  constructor
  · rintro ⟨a, ha, hentry⟩
    refine ⟨a, ha, ?_⟩
    cases hchecked : c.checked a with
    | error why =>
      rw [hchecked] at hentry
      cases hentry
    | ok made =>
      rw [hchecked] at hentry
      cases hentry
      rfl
  · rintro ⟨a, ha, hchecked⟩
    exact ⟨a, ha, by rw [hchecked]; rfl⟩

/-- Requests carry the ids of their calls. -/
theorem made_ids (c : Client) (calls : List Attempt) :
    (c.made calls).map (fun entry => entry.1.id) <+ calls.map Attempt.id := by
  induction calls with
  | nil => exact List.Sublist.slnil
  | cons a rest ih =>
    rw [made, List.filterMap_cons, List.map_cons]
    cases hchecked : c.checked a with
    | error why => exact ih.cons a.id
    | ok entry =>
      obtain ⟨request, inflight⟩ := entry
      simp only [Except.toOption, List.map_cons, checked_id hchecked]
      exact ih.cons_cons a.id

/-- The end of the loop ends what is in the table, and refuses for no other reason. -/
theorem mem_closing {c : Client} {ending : Ending} {moment : Moment}
    (h : moment ∈ c.closing ending) :
    moment = .ended ending ∨
      (∃ entry ∈ c.table.entries,
        moment = .finished entry.1 entry.2 (.failure .connectionClosed)) ∨
      ∃ id, moment = .answered id (.error .connectionClosed) := by
  rcases List.mem_cons.1 h with rfl | h
  · exact .inl rfl
  · rcases List.mem_append.1 h with hfinished | hrefused
    · obtain ⟨entry, hentry, rfl⟩ := List.mem_map.1 hfinished
      exact .inr (.inl ⟨entry, hentry, rfl⟩)
    · obtain ⟨command, -, hrefusal⟩ := List.mem_filterMap.1 hrefused
      cases command with
      | send request inflight =>
        cases hrefusal
        exact .inr (.inr ⟨request.id, rfl⟩)
      | outstanding n => cases hrefusal

/-- The end of the loop tells every call the same. -/
theorem of_answered_mem_closing {c : Client} {ending : Ending} {id : RequestId}
    {result : Except Error Unit} (h : .answered id result ∈ c.closing ending) :
    result = .error .connectionClosed := by
  rcases mem_closing h with hended | ⟨entry, -, hfinished⟩ | ⟨other, hanswered⟩
  · cases hended
  · cases hfinished
  · cases hanswered
    rfl

theorem entries_closing (c : Client) (ending : Ending) : entries (c.closing ending) = [] := by
  rw [entries, List.filterMap_eq_nil_iff]
  intro moment hmoment
  rcases mem_closing hmoment with rfl | ⟨entry, -, rfl⟩ | ⟨id, rfl⟩ <;> rfl

namespace Change

variable {c d : Client} {s : Step} {moments : List Moment}

/-- What a step registers and leaves in the queue was in the queue or is called for, and stays in
order. -/
theorem waiting_sublist (h : c.Change s moments d) :
    entries moments ++ d.waiting <+ c.waiting ++ c.made s.attempt?.toList := by
  have hkept : c.waiting <+ c.waiting ++ c.made s.attempt?.toList := List.sublist_append_left _ _
  cases h with
  | aside connection hattempt herased => exact hkept
  | erased path => exact hkept
  | rejected a why hchecked => exact hkept
  | late a request inflight hchecked hclosed => exact hkept
  | queued a request inflight scratch hchecked hopen hhas hdir =>
    rw [Step.attempt?, Option.toList_some, made_of_checked hchecked, waiting,
      List.filterMap_append]
    exact List.Sublist.refl _
  | asked n hopen =>
    rw [waiting, List.filterMap_append]
    exact List.Sublist.refl _
  | listed n rest hqueue =>
    rw [waiting_cons hqueue]
    exact List.sublist_append_left _ _
  | duplicate request inflight rest scratch hqueue hmem hwithout =>
    rw [waiting_cons hqueue]
    exact (List.sublist_append_left _ _).cons (request, inflight)
  | accepted request inflight rest table connection hqueue hentries =>
    rw [waiting_cons hqueue]
    exact List.sublist_append_left _ _
  | unwritten request inflight rest written fault connection scratch hqueue hsend hwithout =>
    rw [waiting_cons hqueue, entries_append, entries_closing]
    exact (List.nil_sublist _).cons_cons (request, inflight)
  | ignored response connection => exact hkept
  | responded response id inflight completion connection scratch htracked hwithout => exact hkept
  | ended ending connection scratch hloop hopen hwithout =>
    rw [entries_closing]
    exact List.nil_sublist _

/-- What is in the table after a step was there before, or is registered in it. -/
theorem tracked_sublist (h : c.Change s moments d) :
    d.table.entries <+ c.table.entries ++ (entries moments).map tracking := by
  have hkept : c.table.entries <+ c.table.entries ++ (entries moments).map tracking :=
    List.sublist_append_left _ _
  cases h with
  | accepted request inflight rest table connection hqueue hentries =>
    rw [hentries]
    exact List.Sublist.refl _
  | unwritten request inflight rest written fault connection scratch hqueue hsend hwithout =>
    exact List.nil_sublist _
  | responded response id inflight completion connection scratch htracked hwithout =>
    exact List.filter_sublist.trans hkept
  | ended ending connection scratch hloop hopen hwithout => exact List.nil_sublist _
  | _ => exact hkept

/-- Who is told that a request is registered has had it taken from the queue, registered and written
whole. -/
theorem of_accepted (h : c.Change s moments d) {id : RequestId}
    (hmem : .answered id (.ok ()) ∈ moments) : s = .take ∧
      ∃ request inflight, (request, inflight) ∈ c.waiting ∧ request.id = id ∧
        moments = [.registered request inflight request.wire, .answered id (.ok ())] ∧
        d.table.entries = c.table.entries ++ [(id, inflight)] := by
  cases h with
  | accepted request inflight rest table connection hqueue hentries =>
    simp only [List.mem_cons, reduceCtorEq, List.not_mem_nil, or_false, false_or,
      Moment.answered.injEq, and_true] at hmem
    subst hmem
    exact ⟨rfl, request, inflight, mem_waiting hqueue, rfl, rfl, hentries⟩
  | unwritten request inflight rest written fault connection scratch hqueue hsend hwithout =>
    rcases List.mem_append.1 hmem with hfirst | hrest
    · simp at hfirst
    · cases of_answered_mem_closing hrest
  | ended ending connection scratch hloop hopen hwithout => cases of_answered_mem_closing hmem
  | _ => simp at hmem

end Change

/-- In a run requests stay in order, whatever ids their calls have. -/
theorem waiting_run (c : Client) (steps : List Step) :
    entries (c.history steps) ++ (c.run steps).1.waiting <+
      c.waiting ++ c.made (attempts steps) := by
  induction steps generalizing c with
  | nil => exact List.sublist_append_left _ _
  | cons s rest ih =>
    have hstep := (c.step_change s).waiting_sublist
    have hrest := (ih (c.step s).1).append_left (entries (c.happens s))
    rw [made_congr (c.step_checked s), ← List.append_assoc, ← List.append_assoc] at hrest
    rw [history, entries_append, run, andThen_fst, attempts_cons, made_append, ← List.append_assoc]
    exact hrest.trans (hstep.append_right _)

theorem tracked_run (c : Client) (steps : List Step) :
    (c.run steps).1.table.entries <+
      c.table.entries ++ (entries (c.history steps)).map tracking := by
  induction steps generalizing c with
  | nil => exact List.sublist_append_left _ _
  | cons s rest ih =>
    have hstep := (c.step_change s).tracked_sublist
    rw [history, entries_append, List.map_append, ← List.append_assoc]
    exact (ih (c.step s).1).trans (hstep.append_right _)

end Client

end RemoteEval
