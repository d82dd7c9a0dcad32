import RemoteEval.Proofs.Client.Steps

/-!
What others see of requests. Step by step it is what the moments of the history show, one after
another; so statements about requests may be made of histories.
-/
namespace RemoteEval.Client

def aboutRequests (effects : List Effect) : List Effect := effects.filter Effect.ofRequest

theorem aboutRequests_append (first second : List Effect) :
    aboutRequests (first ++ second) = aboutRequests first ++ aboutRequests second :=
  List.filter_append first second

theorem aboutRequests_releaseFile (c : Client) (id : RequestId) (staged : Option String) :
    aboutRequests (c.releaseFile id staged).2 = staged.toList.map (.release id) := by
  cases staged with
  | none => rfl
  | some path =>
    unfold releaseFile Scratch.release
    by_cases hpath : c.scratch.has path = true
    · simp only [hpath]
      rfl
    · simp only [hpath]
      rfl

theorem aboutRequests_finish (c : Client) (id : RequestId) (inflight : Inflight)
    (completion : Completion) :
    c.complaint inflight.origin completion ++
        aboutRequests (c.finish id inflight completion).2 =
      c.ending id inflight completion := by
  have hreleased := c.aboutRequests_releaseFile id inflight.staged
  have hcalled : aboutRequests
      (if inflight.callbacks.wants completion then [Effect.callback id completion] else []) =
        if inflight.callbacks.wants completion then [Effect.callback id completion] else [] := by
    split <;> rfl
  simp only [finish, ending, aboutRequests_append, hreleased, hcalled, List.append_assoc]
  rfl

/-- Nothing is complained of when a request ends because the connection is closed. -/
theorem aboutRequests_finish_closed (c : Client) (id : RequestId) (inflight : Inflight) :
    aboutRequests (c.finish id inflight (.failure .connectionClosed)).2 =
      c.ending id inflight (.failure .connectionClosed) :=
  c.aboutRequests_finish id inflight (.failure .connectionClosed)

theorem aboutRequests_finishAll (c : Client) (entries : List (RequestId × Inflight)) :
    aboutRequests (c.finishAll entries).2 =
      (entries.map fun entry =>
        Moment.finished entry.1 entry.2 (.failure .connectionClosed)).flatMap c.shows := by
  induction entries generalizing c with
  | nil => rfl
  | cons entry rest ih =>
    obtain ⟨id, inflight⟩ := entry
    have hsetup := c.finish_setup id inflight (.failure .connectionClosed)
    rw [finishAll, andThen_snd, aboutRequests_append, aboutRequests_finish_closed, ih,
      hsetup.shows, List.map_cons, List.flatMap_cons]
    rfl

theorem aboutRequests_refuseAll (c : Client) (commands : List Command) :
    aboutRequests (c.refuseAll commands).2 =
      (commands.filterMap Command.refusal).flatMap c.shows := by
  induction commands generalizing c with
  | nil => rfl
  | cons command rest ih =>
    cases command with
    | send request inflight =>
      rw [refuseAll, andThen_snd, aboutRequests_append, ih]
      rfl
    | outstanding n =>
      rw [refuseAll, andThen_snd, aboutRequests_append, ih]
      rfl

theorem aboutRequests_close (c : Client) (ending : Ending) :
    aboutRequests (c.close ending).2 = (c.closing ending).flatMap c.shows := by
  obtain ⟨scratch, hfinish⟩ := finishAll_fst { c with table := .empty } c.table.entries
  have hlog : aboutRequests (endingLog ending) = [] := by cases ending <;> rfl
  unfold close closing
  simp only [Table.drain, andThen_snd, aboutRequests_append, hfinish, hlog,
    aboutRequests_finishAll, aboutRequests_refuseAll, List.append_nil, List.cons_append,
    List.flatMap_cons, List.flatMap_append]
  rfl

theorem aboutRequests_submit (c : Client) (a : Attempt) :
    aboutRequests (c.submit a).2 = (c.submitting a).flatMap c.shows := by
  have hflash : aboutRequests (flash a) = [] := by
    unfold flash
    split <;> rfl
  have hstaged : ∀ scratch staged, aboutRequests (stagedFile scratch staged) = [] := by
    intro scratch staged
    cases staged <;> rfl
  unfold submit submitting
  cases c.prepare a with
  | error why =>
    simp only [aboutRequests_append, hflash]
    rfl
  | ok prepared =>
    cases hclosed : c.closed with
    | true =>
      simp only [if_true, aboutRequests_append, hflash]
      rfl
    | false =>
      simp only [Bool.false_eq_true, if_false, aboutRequests_append, hflash, hstaged]
      rfl

theorem aboutRequests_register (c : Client) (request : Request) (inflight : Inflight) :
    aboutRequests (c.register request inflight).2 =
      (c.registering request inflight).flatMap c.shows := by
  cases c.registration request inflight with
  | duplicate text hmem hregister hmoments =>
    rw [hregister, hmoments]
    rfl
  | accepted table written connection hfree hentries hsend hregister hmoments =>
    rw [hregister, hmoments]
    rfl
  | unwritten written fault connection hfree hsend hregister hmoments =>
    have hfinish := aboutRequests_finish { c with connection } request.id inflight
      (.failure .connectionClosed)
    rw [hregister, hmoments]
    simp only [andThen_snd, finish_fst, aboutRequests_append, aboutRequests_close,
      List.flatMap_append, List.flatMap_cons, List.flatMap_nil, List.append_nil, List.append_assoc]
    exact congrArg (fun ended => aboutRequests [.editor (.progress inflight.origin .started),
      .wrote written] ++ (ended ++ _)) hfinish

theorem aboutRequests_take (c : Client) : aboutRequests c.take.2 = c.taking.flatMap c.shows := by
  unfold take taking
  cases c.queue with
  | nil => rfl
  | cons command rest =>
    cases command with
    | send request inflight =>
      exact aboutRequests_register { c with queue := rest } request inflight
    | outstanding n => rfl

theorem aboutRequests_complaint (c : Client) (origin : String) (completion : Completion) :
    aboutRequests (c.complaint origin completion) = c.complaint origin completion := by
  unfold complaint displayed
  split
  · split <;> rfl
  · rfl

theorem aboutRequests_dispatch (c : Client) (response : Response) :
    aboutRequests (c.dispatch response).2 = (c.dispatching response).flatMap c.shows := by
  unfold dispatching
  cases hended : c.endedBy response with
  | none =>
    obtain ⟨level, text, hdispatch⟩ := dispatch_of_none hended
    rw [hdispatch]
    rfl
  | some ended =>
    obtain ⟨id, inflight, completion⟩ := ended
    have hfinish := aboutRequests_finish { c with table := c.table.erase id } id inflight completion
    rw [dispatch_of_some hended, andThen_snd, aboutRequests_append, aboutRequests_complaint]
    exact hfinish.trans (List.append_nil _).symm

theorem aboutRequests_receive (c : Client) :
    aboutRequests c.receive.2 = c.receiving.flatMap c.shows := by
  unfold receive receiving
  by_cases hclosed : c.closed = true
  · rw [if_pos hclosed, if_pos hclosed]
    rfl
  · rw [if_neg hclosed, if_neg hclosed]
    obtain ⟨receipt, connection⟩ := c.connection.receive
    cases receipt with
    | response response => exact aboutRequests_dispatch { c with connection } response
    | ended => exact aboutRequests_close { c with connection } .remoteClosed
    | failed fault => exact aboutRequests_close { c with connection } (.io fault)
    | waiting => rfl

/-- What others see of requests in a step is what its moments show. -/
theorem aboutRequests_step (c : Client) (s : Step) :
    aboutRequests (c.step s).2 = (c.happens s).flatMap c.shows := by
  cases s with
  | submit attempt => exact c.aboutRequests_submit attempt
  | query n =>
    change aboutRequests (c.query n).2 = []
    unfold query
    split <;> rfl
  | take => exact c.aboutRequests_take
  | receive => exact c.aboutRequests_receive
  | stop =>
    simp only [step, happens]
    split
    · rfl
    · exact c.aboutRequests_close .stopped
  | arrive piece => rfl
  | closeOutput => rfl
  | dropRemote => rfl
  | failReads fault => rfl
  | failWrites after => rfl
  | failFlushes fault => rfl
  | erase path => rfl

/-- What others see of requests in a run is what the moments of its history show. -/
theorem aboutRequests_run (c : Client) (steps : List Step) :
    aboutRequests (c.run steps).2 = (c.history steps).flatMap c.shows := by
  induction steps generalizing c with
  | nil => rfl
  | cons s rest ih =>
    rw [run, andThen_snd, aboutRequests_append, aboutRequests_step, ih, (c.step_setup s).shows,
      history, List.flatMap_append]

end RemoteEval.Client
