import RemoteEval.Proofs.Client.Course
import RemoteEval.Proofs.Client.History
import RemoteEval.Proofs.Client.Order

/-!
The end of the loop takes its time, and others go on calling and acting meanwhile: the requests in
the table are finished one by one, and only when all are finished is the queue refused, with what
has come into it since. However the two are interleaved, no request is left over.
-/
namespace RemoteEval.Client

/-- The end of the loop while others go on: the requests that were in the table are finished one
by one, in between others call and act, and when all are finished the queue is refused and the
client counts as closed. -/
inductive Winds : Client → List (RequestId × Inflight) → List Step → Client × List Effect → Prop
  where
  | done (c : Client) : Winds c [] [] ({ c with queue := [], closed := true }.refuseAll c.queue)
  | finish (c : Client) (id : RequestId) (inflight : Inflight)
      {left : List (RequestId × Inflight)} {others : List Step} {out : Client × List Effect}
      (hrest : Winds (c.finish id inflight (.failure .connectionClosed)).1 left others out) :
      Winds c ((id, inflight) :: left) others
        (andThen (c.finish id inflight (.failure .connectionClosed)) fun _ => out)
  | amid (c : Client) (s : Step) (hother : s.ofLoop = false)
      {left : List (RequestId × Inflight)} {others : List Step} {out : Client × List Effect}
      (hrest : Winds (c.step s).1 left others out) :
      Winds c left (s :: others) (andThen (c.step s) fun _ => out)

/-- When nobody acts in between, the loop ends as it does in one step. -/
theorem winds_close (c : Client) (ending : Ending) :
    ∃ out, Winds { c with table := .empty } c.table.entries [] out ∧
      c.close ending = andThen out fun c => (c, endingLog ending) := by
  have hwinds : ∀ (entries : List (RequestId × Inflight)) (d : Client), Winds d entries []
      (andThen (d.finishAll entries) fun d =>
        { d with queue := [], closed := true }.refuseAll d.queue) := by
    intro entries
    induction entries with
    | nil => exact fun d => .done d
    | cons entry rest ih =>
      intro d
      have hfinish := Winds.finish d entry.1 entry.2 (ih _)
      rw [finishAll, andThen_assoc]
      exact hfinish
  exact ⟨_, hwinds c.table.entries { c with table := .empty }, rfl⟩

/-- What the end of a loop comes to that others have gone on acting in: what was in the table is
finished, in order; all that was in the queue or has come into it is refused, after that. -/
structure WoundUp (c : Client) (left : List (RequestId × Inflight)) (others : List Step)
    (out : Client × List Effect) : Prop where
  ended : out.1.Ended
  table_eq : out.1.table = c.table
  shown : ∃ moments, aboutRequests out.2 =
      (moments ++ (c.waiting ++ c.made (attempts others)).map fun entry =>
        .answered entry.1.id (.error .connectionClosed)).flatMap c.shows ∧
    moments.filterMap Moment.finished? =
      (left.map fun entry => (entry.1, .failure .connectionClosed)) ∧
    ∀ moment ∈ moments,
      (∃ entry ∈ left, moment = .finished entry.1 entry.2 (.failure .connectionClosed)) ∨
      ∃ a ∈ attempts others, ∃ why, c.checked a = .error why ∧
        moment = .answered a.id (.error why)

structure Amid (c : Client) (s : Step) (moments : List Moment) (d : Client) : Prop where
  opened : d.closed = false
  table_eq : d.table = c.table
  waiting_eq : d.waiting = c.waiting ++ c.made s.attempt?.toList
  refused : ∀ moment ∈ moments, ∃ a ∈ s.attempt?.toList, ∃ why,
    c.checked a = .error why ∧ moment = .answered a.id (.error why)
  has_iff : ∀ path, path ∉ (c.made s.attempt?.toList).filterMap (fun entry => entry.2.staged) →
    (d.scratch.has path = true ↔ c.scratch.has path = true ∧ s ≠ .erase path)

theorem Amid.answered {c d : Client} {s : Step} {moments : List Moment} (h : c.Amid s moments d) :
    ∀ moment ∈ moments, ∃ id result, moment = .answered id result := by
  intro moment hmoment
  obtain ⟨a, -, why, -, rfl⟩ := h.refused moment hmoment
  exact ⟨_, _, rfl⟩

theorem Change.amid {c d : Client} {s : Step} {moments : List Moment} (h : c.Change s moments d)
    (hopen : c.closed = false) (hother : s.ofLoop = false) : c.Amid s moments d := by
  have hnone : ∀ {a : Option Attempt}, a = none → c.waiting = c.waiting ++ c.made a.toList := by
    rintro a rfl
    exact (List.append_nil _).symm
  have hsame : s.erased? = none →
      ∀ path, c.scratch.has path = true ↔ c.scratch.has path = true ∧ s ≠ .erase path := by
    rintro herased path
    refine (and_iff_left ?_).symm
    rintro rfl
    cases herased
  cases h with
  | aside connection hattempt herased =>
    exact ⟨hopen, rfl, hnone hattempt, by simp, fun path _ => hsame herased path⟩
  | erased path =>
    refine ⟨hopen, rfl, hnone rfl, by simp, ?_⟩
    intro other _
    rw [Scratch.has_remove, ne_eq, ne_eq, Step.erase.injEq, eq_comm (a := path)]
  | rejected a why hchecked =>
    refine ⟨hopen, rfl, ?_, ?_, fun path _ => hsame rfl path⟩
    · rw [Step.attempt?, Option.toList_some, made_of_refused hchecked, List.append_nil]
    · intro moment hmoment
      exact ⟨a, List.mem_singleton_self a, why, hchecked, List.mem_singleton.1 hmoment⟩
  | late a request inflight hchecked hclosed =>
    exact absurd (hopen.symm.trans hclosed) Bool.false_ne_true
  | queued a request inflight scratch hchecked _ hhas hdir =>
    have hmade := made_of_checked hchecked
    refine ⟨hopen, rfl, ?_, by simp, ?_⟩
    · rw [Step.attempt?, Option.toList_some, hmade, waiting, List.filterMap_append]
      rfl
    · intro path hpath
      rw [Step.attempt?, Option.toList_some, hmade] at hpath
      have hother : inflight.staged ≠ some path := fun hstaged => hpath (by simp [hstaged])
      rw [hhas, or_iff_left hother]
      exact hsame rfl path
  | asked n _ =>
    refine ⟨hopen, rfl, ?_, by simp, fun path _ => hsame rfl path⟩
    rw [waiting, List.filterMap_append]
    rfl
  | ended ending connection scratch hloop _ hwithout =>
    exact absurd (hother.symm.trans hloop) Bool.false_ne_true
  | _ => cases hother

namespace WoundUp

variable {c : Client} {left : List (RequestId × Inflight)} {others : List Step}
  {out : Client × List Effect}

theorem done (c : Client) :
    c.WoundUp [] [] ({ c with queue := [], closed := true }.refuseAll c.queue) := by
  refine ⟨?_, ?_, [], ?_, rfl, by simp⟩
  · rw [refuseAll_state]
    exact ⟨rfl, rfl⟩
  · rw [refuseAll_state]
  · rw [aboutRequests_refuseAll, refusals_eq]
    simp only [List.nil_append, attempts, List.filterMap_nil, made, List.append_nil]
    rfl

theorem finish {id : RequestId} {inflight : Inflight}
    (h : (c.finish id inflight (.failure .connectionClosed)).1.WoundUp left others out) :
    c.WoundUp ((id, inflight) :: left) others
      (andThen (c.finish id inflight (.failure .connectionClosed)) fun _ => out) := by
  obtain ⟨hended, htable, moments, hshown, hfinished, hothers⟩ := h
  have hfirst := c.aboutRequests_finish id inflight (.failure .connectionClosed)
  refine ⟨hended, ?_, .finished id inflight (.failure .connectionClosed) :: moments, ?_, ?_, ?_⟩
  · rw [andThen_fst, htable, finish_fst]
  · rw [andThen_snd, aboutRequests_append, hshown, (c.finish_setup _ _ _).shows,
      made_congr (c.finish_checked _ _ _), finish_fst, List.cons_append, List.flatMap_cons]
    exact congrArg (· ++ _) hfirst
  · rw [List.filterMap_cons_some (f := Moment.finished?) rfl, hfinished]
    rfl
  · intro moment hmoment
    rcases List.mem_cons.1 hmoment with rfl | hmoment
    · exact .inl ⟨(id, inflight), List.mem_cons_self, rfl⟩
    · rcases hothers moment hmoment with ⟨entry, hentry, rfl⟩ | ⟨a, ha, why, hchecked, rfl⟩
      · exact .inl ⟨entry, List.mem_cons_of_mem _ hentry, rfl⟩
      · exact .inr ⟨a, ha, why, by rw [← c.finish_checked]; exact hchecked, rfl⟩

theorem amid {s : Step} (hamid : c.Amid s (c.happens s) (c.step s).1)
    (h : (c.step s).1.WoundUp left others out) :
    c.WoundUp left (s :: others) (andThen (c.step s) fun _ => out) := by
  obtain ⟨hended, hkept, moments, hshown, hfinished, hothers⟩ := h
  refine ⟨hended, ?_, c.happens s ++ moments, ?_, ?_, ?_⟩
  · rw [andThen_fst, hkept, hamid.table_eq]
  · rw [andThen_snd, aboutRequests_append, aboutRequests_step, hshown, (c.step_setup s).shows,
      hamid.waiting_eq, made_congr (c.step_checked s), attempts_cons, made_append]
    simp only [List.map_append, List.flatMap_append, List.append_assoc]
  · rw [List.filterMap_append, hfinished,
      filterMap_of_answered (fun _ _ => rfl) hamid.answered, List.nil_append]
  · intro moment hmoment
    rw [attempts_cons]
    rcases List.mem_append.1 hmoment with hmoment | hmoment
    · obtain ⟨a, ha, why, hchecked, rfl⟩ := hamid.refused moment hmoment
      exact .inr ⟨a, List.mem_append_left _ ha, why, hchecked, rfl⟩
    · rcases hothers moment hmoment with ⟨entry, hentry, rfl⟩ | ⟨a, ha, why, hchecked, rfl⟩
      · exact .inl ⟨entry, hentry, rfl⟩
      · exact .inr ⟨a, List.mem_append_right _ ha, why, c.step_checked s ▸ hchecked, rfl⟩

end WoundUp

/-- However others race with the end of the loop, all is settled when the client is closed. -/
theorem Winds.woundUp {c : Client} {left : List (RequestId × Inflight)} {others : List Step}
    {out : Client × List Effect} (h : c.Winds left others out) (hopen : c.closed = false) :
    c.WoundUp left others out := by
  -- The end is told backwards: what is refused in the last step waits already in the steps before.
  induction h with
  | done c => exact .done c
  | finish c id inflight hrest ih => exact .finish (ih (by rw [finish_fst]; exact hopen))
  | amid c s hother hrest ih =>
    have hamid := (c.step_change s).amid hopen hother
    exact .amid hamid (ih hamid.opened)

end RemoteEval.Client
