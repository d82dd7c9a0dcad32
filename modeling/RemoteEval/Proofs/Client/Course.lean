import RemoteEval.Proofs.Client.Turn

/-!
The course of the loop. It goes on from step to step until it ends, for one reason; then nothing
is dispatched any more and calls to send are answered at once.
-/
namespace RemoteEval

def Moment.dispatched? : Moment → Option Response
  | .dispatched response => some response
  | _ => none

def Moment.ofEnding : Moment → Bool
  | .ended _ => true
  | .finished _ _ (.failure .connectionClosed) => true
  | _ => false

def responses (moments : List Moment) : List Response := moments.filterMap Moment.dispatched?

theorem responses_append (first second : List Moment) :
    responses (first ++ second) = responses first ++ responses second :=
  List.filterMap_append

/-- What is refused with the queue is answered. -/
theorem answered_of_refusals (commands : List Command) :
    ∀ moment ∈ commands.filterMap Command.refusal, ∃ id result, moment = .answered id result := by
  intro moment hmoment
  obtain ⟨command, -, hrefusal⟩ := List.mem_filterMap.1 hmoment
  cases command with
  | send request inflight =>
    cases hrefusal
    exact ⟨_, _, rfl⟩
  | outstanding n => cases hrefusal

section View

variable {β : Type} {view : Moment → Option β}
  (hanswered : ∀ id result, view (.answered id result) = none)
include hanswered

/-- Moments that only answer calls have nothing to show to a view that leaves answers out. -/
theorem filterMap_of_answered {moments : List Moment}
    (h : ∀ moment ∈ moments, ∃ id result, moment = .answered id result) :
    moments.filterMap view = [] := by
  rw [List.filterMap_eq_nil_iff]
  intro moment hmoment
  obtain ⟨id, result, rfl⟩ := h moment hmoment
  exact hanswered id result

/-- The end of the loop shows to such a view no more than the requests that it ends. -/
theorem Client.filterMap_closing (hended : ∀ ending, view (.ended ending) = none) (c : Client)
    (ending : Ending) : (c.closing ending).filterMap view =
      c.table.entries.filterMap fun entry =>
        view (.finished entry.1 entry.2 (.failure .connectionClosed)) := by
  have hrefused := filterMap_of_answered hanswered (answered_of_refusals c.queue)
  rw [closing, List.cons_append, List.filterMap_cons_none (hended ending), List.filterMap_append,
    hrefused, List.append_nil, List.filterMap_map]
  rfl

end View

namespace Client

structure Ended (c : Client) : Prop where
  closed : c.closed = true
  queue_nil : c.queue = []

theorem close_ended (c : Client) (ending : Ending) : (c.close ending).1.Ended := by
  obtain ⟨scratch, hclose⟩ := c.close_fst ending
  rw [hclose]
  exact ⟨rfl, rfl⟩

theorem close_connection (c : Client) (ending : Ending) :
    (c.close ending).1.connection = c.connection := by
  obtain ⟨scratch, hclose⟩ := c.close_fst ending
  rw [hclose]

/-- A response does not end the loop, nor a request as the end of the loop does. -/
theorem dispatching_ofEnding (c : Client) (response : Response) :
    ∀ moment ∈ c.dispatching response, moment.ofEnding = false := by
  intro moment hmoment
  rcases List.mem_cons.1 hmoment with rfl | hmoment
  · rfl
  · split at hmoment
    · cases hmoment
    · next id inflight completion hended =>
      cases List.mem_singleton.1 hmoment
      obtain ⟨hverdict, -⟩ := endedBy_some hended
      cases response <;> cases hverdict <;> rfl

theorem responses_dispatching (c : Client) (response : Response) :
    responses (c.dispatching response) = [response] := by
  unfold dispatching
  split <;> rfl

theorem responses_closing (c : Client) (ending : Ending) : responses (c.closing ending) = [] := by
  rw [responses, filterMap_closing (fun _ _ => rfl) fun _ => rfl]
  exact List.filterMap_eq_nil_iff.2 fun _ _ => rfl

theorem eq_of_ended_mem_closing {c : Client} {first second : Ending}
    (h : .ended first ∈ c.closing second) : first = second := by
  rcases List.mem_cons.1 h with heq | h
  · cases heq
    rfl
  · rcases List.mem_append.1 h with hfinished | hrefused
    · obtain ⟨entry, -, hentry⟩ := List.mem_map.1 hfinished
      cases hentry
    · obtain ⟨command, -, hrefusal⟩ := List.mem_filterMap.1 hrefused
      cases command <;> cases hrefusal

/-- What becomes of the loop in one step: it goes on, or it ends for one reason. -/
inductive Course (c : Client) (s : Step) : Prop where
  | runs (hopen : (c.step s).1.closed = false)
      (hmoments : ∀ moment ∈ c.happens s, moment.ofEnding = false)
  | ends (front : List Moment) (d : Client) (ending : Ending) (hended : (c.step s).1.Ended)
      (hmoments : c.happens s = front ++ d.closing ending)
      (hfront : ∀ other, .ended other ∉ front)
      (hremote : ending = .remoteClosed →
        front = [] ∧ s = .receive ∧ c.connection.receive.1 = .ended)

theorem submit_course {c : Client} (hopen : c.closed = false) (a : Attempt) :
    c.Course (.submit a) := by
  have hstep : (c.submit a).1.closed = false := by
    unfold submit
    split
    · exact hopen
    · split <;> exact hopen
  refine .runs hstep ?_
  intro moment hmoment
  change moment ∈ c.submitting a at hmoment
  unfold submitting at hmoment
  split at hmoment
  · cases List.mem_singleton.1 hmoment
    rfl
  · split at hmoment
    · cases List.mem_singleton.1 hmoment
      rfl
    · cases hmoment

theorem take_course {c : Client} (hopen : c.closed = false) : c.Course .take := by
  cases hqueue : c.queue with
  | nil =>
    refine .runs ?_ ?_
    · simp only [step, take, hqueue]
      exact hopen
    · simp [happens, taking, hqueue]
  | cons command rest =>
    cases command with
    | outstanding n =>
      refine .runs ?_ ?_
      · simp only [step, take, hqueue]
        exact hopen
      · simp [happens, taking, hqueue]
    | send request inflight =>
      have hstep : (c.step .take).1 = ({ c with queue := rest }.register request inflight).1 := by
        simp only [step, take, hqueue]
      have hhappens : c.happens .take = { c with queue := rest }.registering request inflight := by
        simp only [happens, taking, hqueue]
      cases registration { c with queue := rest } request inflight with
      | duplicate text hmem hregister hmoments =>
        rw [hregister] at hstep
        rw [hmoments] at hhappens
        refine .runs (by rw [hstep]; exact hopen) ?_
        rw [hhappens]
        intro moment hmoment
        cases List.mem_singleton.1 hmoment
        rfl
      | accepted table written connection hfree hentries hsend hregister hmoments =>
        rw [hregister] at hstep
        rw [hmoments] at hhappens
        refine .runs (by rw [hstep]; exact hopen) ?_
        rw [hhappens]
        intro moment hmoment
        simp only [List.mem_cons, List.not_mem_nil, or_false] at hmoment
        rcases hmoment with rfl | rfl <;> rfl
      | unwritten written fault connection hfree hsend hregister hmoments =>
        rw [hregister] at hstep
        rw [hmoments] at hhappens
        refine .ends _ { c with queue := rest } (.io fault) ?_ hhappens (by simp) (by rintro ⟨⟩)
        rw [hstep]
        simp only [andThen_fst]
        exact close_ended _ _

theorem receive_course {c : Client} (hopen : c.closed = false) : c.Course .receive := by
  have hstep : (c.step .receive).1 = c.receive.1 := rfl
  have hhappens : c.happens .receive = c.receiving := rfl
  unfold receive at hstep
  unfold receiving at hhappens
  rw [if_neg (by simp [hopen])] at hstep hhappens
  cases hreceive : c.connection.receive with
  | mk receipt connection =>
    simp only [hreceive] at hstep hhappens
    cases receipt with
    | response response =>
      refine .runs ?_ ?_
      · obtain ⟨scratch, hstate⟩ := dispatch_fst { c with connection } response
        rw [hstep, hstate]
        exact hopen
      · rw [hhappens]
        exact dispatching_ofEnding { c with connection } response
    | ended =>
      refine .ends [] c .remoteClosed (by rw [hstep]; exact close_ended _ _) hhappens (by simp) ?_
      intro _
      exact ⟨rfl, rfl, congrArg Prod.fst hreceive⟩
    | failed fault =>
      exact .ends [] c (.io fault) (by rw [hstep]; exact close_ended _ _) hhappens (by simp)
        (by rintro ⟨⟩)
    | waiting =>
      refine .runs (by rw [hstep]; exact hopen) ?_
      simp [hhappens]

theorem step_course {c : Client} (hopen : c.closed = false) (s : Step) : c.Course s := by
  have hnothing : ∀ t : Step, (c.step t).1.closed = false → c.happens t = [] → c.Course t := by
    intro t hstep hhappens
    exact .runs hstep (by simp [hhappens])
  cases s with
  | submit attempt => exact submit_course hopen attempt
  | query n =>
    refine hnothing _ ?_ rfl
    simp only [step, query, hopen, Bool.false_eq_true, if_false]
  | take => exact take_course hopen
  | receive => exact receive_course hopen
  | stop =>
    have hstep : (c.step .stop).1 = (c.close .stopped).1 := by simp [step, hopen]
    have hhappens : c.happens .stop = c.closing .stopped := by simp [happens, hopen]
    exact .ends [] c .stopped (by rw [hstep]; exact close_ended _ _) hhappens (by simp)
        (by rintro ⟨⟩)
  | arrive piece => exact hnothing _ hopen rfl
  | closeOutput => exact hnothing _ hopen rfl
  | dropRemote => exact hnothing _ hopen rfl
  | failReads fault => exact hnothing _ hopen rfl
  | failWrites after => exact hnothing _ hopen rfl
  | failFlushes fault => exact hnothing _ hopen rfl
  | erase path => exact hnothing _ hopen rfl

/-- Once the loop has ended it stays so, and calls to send are answered at once. -/
theorem Ended.step {c : Client} (h : c.Ended) (s : Step) :
    (c.step s).1.Ended ∧ ∀ moment ∈ c.happens s, ∃ id result, moment = .answered id result := by
  obtain ⟨hclosed, hqueue⟩ := h
  have hnothing : ∀ t : Step, (c.step t).1.closed = true → (c.step t).1.queue = [] →
      c.happens t = [] →
      (c.step t).1.Ended ∧ ∀ moment ∈ c.happens t, ∃ id result, moment = .answered id result := by
    intro t hstep hleft hhappens
    exact ⟨⟨hstep, hleft⟩, by simp [hhappens]⟩
  cases s with
  | submit a =>
    change (c.submit a).1.Ended ∧ ∀ moment ∈ c.submitting a, _
    unfold submit submitting
    cases c.prepare a with
    | error why =>
      refine ⟨⟨hclosed, hqueue⟩, ?_⟩
      intro moment hmoment
      exact ⟨_, _, List.mem_singleton.1 hmoment⟩
    | ok prepared =>
      simp only [if_pos hclosed]
      refine ⟨⟨hclosed, hqueue⟩, ?_⟩
      intro moment hmoment
      exact ⟨_, _, List.mem_singleton.1 hmoment⟩
  | query n =>
    have hstep : (c.step (.query n)).1 = c := by simp [Client.step, query, hclosed]
    exact hnothing _ (by rw [hstep, hclosed]) (by rw [hstep, hqueue]) rfl
  | take =>
    have hstep : (c.step .take).1 = c := by simp [Client.step, take, hqueue]
    exact hnothing _ (by rw [hstep, hclosed]) (by rw [hstep, hqueue])
      (by simp [happens, taking, hqueue])
  | receive =>
    have hstep : (c.step .receive).1 = c := by simp [Client.step, receive, hclosed]
    exact hnothing _ (by rw [hstep, hclosed]) (by rw [hstep, hqueue])
      (by simp [happens, receiving, hclosed])
  | stop =>
    have hstep : (c.step .stop).1 = c := by simp [Client.step, hclosed]
    exact hnothing _ (by rw [hstep, hclosed]) (by rw [hstep, hqueue]) (by simp [happens, hclosed])
  | arrive piece => exact hnothing _ hclosed hqueue rfl
  | closeOutput => exact hnothing _ hclosed hqueue rfl
  | dropRemote => exact hnothing _ hclosed hqueue rfl
  | failReads fault => exact hnothing _ hclosed hqueue rfl
  | failWrites after => exact hnothing _ hclosed hqueue rfl
  | failFlushes fault => exact hnothing _ hclosed hqueue rfl
  | erase path => exact hnothing _ hclosed hqueue rfl

theorem Ended.history {c : Client} (h : c.Ended) (steps : List Step) :
    ∀ moment ∈ c.history steps, ∃ id result, moment = .answered id result := by
  induction steps generalizing c with
  | nil =>
    intro moment hmoment
    cases hmoment
  | cons s rest ih =>
    obtain ⟨hended, hanswered⟩ := h.step s
    intro moment hmoment
    rcases List.mem_append.1 hmoment with hmoment | hmoment
    · exact hanswered moment hmoment
    · exact ih hended moment hmoment

end Client

end RemoteEval
