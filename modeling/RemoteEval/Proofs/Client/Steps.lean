import RemoteEval.Proofs.Client.Moments
import RemoteEval.Proofs.Table

/-!
What the operations of a client do to its state. Finishing, refusing and closing change what they
must and nothing else; taking a request has three ways to go, handing on a response two. The
name and the settings of a client stay the same whatever happens.
-/
namespace RemoteEval.Client

theorem releaseFile_fst (c : Client) (id : RequestId) (staged : Option String) :
    (c.releaseFile id staged).1 =
      { c with scratch := staged.elim c.scratch c.scratch.remove } := by
  cases staged with
  | none => rfl
  | some path =>
    by_cases hpath : c.scratch.has path = true
    · simp [releaseFile, Scratch.release, hpath]
    · have hkeep : c.scratch.remove path = c.scratch := by
        have hall : ∀ file ∈ c.scratch.files, (file.1 != path) = true := by
          intro file hfile
          simp only [Scratch.has, List.any_eq_true, not_exists, not_and] at hpath
          simpa using hpath file hfile
        simp [Scratch.remove, List.filter_eq_self.2 hall]
      simp [releaseFile, Scratch.release, hpath, hkeep]

/-- Finishing a request changes nothing but the scratch directory. -/
theorem finish_fst (c : Client) (id : RequestId) (inflight : Inflight) (completion : Completion) :
    (c.finish id inflight completion).1 =
      { c with scratch := inflight.staged.elim c.scratch c.scratch.remove } :=
  c.releaseFile_fst id inflight.staged

theorem finishAll_fst (c : Client) (entries : List (RequestId × Inflight)) :
    ∃ scratch, (c.finishAll entries).1 = { c with scratch } := by
  induction entries generalizing c with
  | nil => exact ⟨c.scratch, rfl⟩
  | cons entry rest ih =>
    obtain ⟨id, inflight⟩ := entry
    rw [finishAll, andThen_fst, finish_fst]
    obtain ⟨scratch, hrest⟩ := ih
      { c with scratch := inflight.staged.elim c.scratch c.scratch.remove }
    exact ⟨scratch, hrest⟩

theorem refuseAll_fst (c : Client) (commands : List Command) :
    ∃ scratch, (c.refuseAll commands).1 = { c with scratch } := by
  induction commands generalizing c with
  | nil => exact ⟨c.scratch, rfl⟩
  | cons command rest ih =>
    cases command with
    | send request inflight =>
      rw [refuseAll, andThen_fst]
      obtain ⟨scratch, hrest⟩ := ih
        { c with scratch := inflight.staged.elim c.scratch c.scratch.remove }
      exact ⟨scratch, hrest⟩
    | outstanding n =>
      rw [refuseAll, andThen_fst]
      exact ih c

/-- Once the loop has ended nothing is tracked and nothing is queued. -/
theorem close_fst (c : Client) (ending : Ending) :
    ∃ scratch, (c.close ending).1 =
      { c with table := .empty, queue := [], closed := true, scratch } := by
  obtain ⟨scratch, hfinish⟩ := finishAll_fst { c with table := .empty } c.table.entries
  obtain ⟨left, hrefuse⟩ := refuseAll_fst
    { c with table := .empty, queue := [], closed := true, scratch } c.queue
  refine ⟨left, ?_⟩
  unfold close
  simp only [Table.drain, andThen_fst, hfinish]
  exact hrefuse

/-- What the loop does with a request that it takes: it refuses it, or registers and writes it, or
registers and finishes it because it cannot be written. -/
inductive Registration (c : Client) (request : Request) (inflight : Inflight) : Prop where
  | duplicate (text : String) (hmem : request.id ∈ c.table.ids)
      (hregister : c.register request inflight =
        ({ c with scratch := inflight.staged.elim c.scratch c.scratch.remove },
          [.log .error text, .answered request.id (.error (.duplicateId request.id))]))
      (hmoments : c.registering request inflight =
        [.answered request.id (.error (.duplicateId request.id))])
  | accepted (table : Table Inflight) (written : List UInt8) (connection : Connection)
      (hfree : request.id ∉ c.table.ids)
      (hentries : table.entries = c.table.entries ++ [(request.id, inflight)])
      (hsend : c.connection.send request = (written, none, connection))
      (hregister : c.register request inflight = ({ c with table, connection },
        [.editor (.progress inflight.origin .started), .wrote written,
          .answered request.id (.ok ())]))
      (hmoments : c.registering request inflight =
        [.registered request inflight written, .answered request.id (.ok ())])
  | unwritten (written : List UInt8) (fault : Fault) (connection : Connection)
      (hfree : request.id ∉ c.table.ids)
      (hsend : c.connection.send request = (written, some fault, connection))
      (hregister : c.register request inflight =
        andThen ({ c with connection },
            [.editor (.progress inflight.origin .started), .wrote written])
          fun c => andThen (c.finish request.id inflight (.failure .connectionClosed))
            fun c => andThen (c, [.answered request.id (.error .connectionClosed)])
              fun c => c.close (.io fault))
      (hmoments : c.registering request inflight =
        [.registered request inflight written,
          .finished request.id inflight (.failure .connectionClosed),
          .answered request.id (.error .connectionClosed)] ++ c.closing (.io fault))

theorem registration (c : Client) (request : Request) (inflight : Inflight) :
    c.Registration request inflight := by
  by_cases hmem : request.id ∈ c.table.ids
  · have hrefused := Table.register_of_mem inflight hmem
    refine .duplicate ("Refusing to send request - " ++ (Error.duplicateId request.id).message)
      hmem ?_ ?_
    · unfold register
      simp only [hrefused]
    · unfold registering
      simp only [hrefused]
  · obtain ⟨table, htable, hentries⟩ := Table.register_of_not_mem inflight hmem
    cases hsend : c.connection.send request with
    | mk written sent =>
      obtain ⟨fault, connection⟩ := sent
      cases fault with
      | none =>
        refine .accepted table written connection hmem hentries hsend ?_ ?_
        · unfold register
          simp only [htable, hsend]
          rfl
        · unfold registering
          simp only [htable, hsend]
      | some fault =>
        refine .unwritten written fault connection hmem hsend ?_ ?_
        · unfold register
          simp only [htable, hsend]
        · unfold registering
          simp only [htable, hsend]

theorem endedBy_none {c : Client} {response : Response} (h : c.endedBy response = none)
    {id : RequestId} {completion : Completion}
    (hverdict : response.verdict? = some (id, completion)) : c.table.get? id = none := by
  rw [endedBy, hverdict] at h
  exact Option.map_eq_none_iff.1 h

theorem endedBy_some {c : Client} {response : Response} {id : RequestId} {inflight : Inflight}
    {completion : Completion} (h : c.endedBy response = some (id, inflight, completion)) :
    response.verdict? = some (id, completion) ∧ c.table.get? id = some inflight := by
  unfold endedBy at h
  split at h
  · cases h
  · next other found hverdict =>
    obtain ⟨entry, hentry, hsame⟩ := Option.map_eq_some_iff.1 h
    cases hsame
    exact ⟨hverdict, hentry⟩

/-- A response that ends no request leaves a log line. -/
theorem dispatch_of_none {c : Client} {response : Response} (h : c.endedBy response = none) :
    ∃ level text, c.dispatch response = (c, [.log level text]) := by
  cases response with
  | unrecognized raw reason => exact ⟨_, _, rfl⟩
  | success id =>
    have hnone := endedBy_none h rfl
    refine ⟨.debug, "ignoring success for unknown request " ++ id, ?_⟩
    simp only [dispatch, Table.complete, hnone]
  | failure id message stack =>
    have hnone := endedBy_none h rfl
    refine ⟨.debug, "ignoring failure for unknown request " ++ id, ?_⟩
    simp only [dispatch, Table.complete, hnone]

/-- A response that ends a request takes it out of the table, shows its failure if it failed, and
finishes it. -/
theorem dispatch_of_some {c : Client} {response : Response} {id : RequestId} {inflight : Inflight}
    {completion : Completion} (h : c.endedBy response = some (id, inflight, completion)) :
    c.dispatch response =
      andThen ({ c with table := c.table.erase id }, c.complaint inflight.origin completion)
        fun c => c.finish id inflight completion := by
  obtain ⟨hverdict, htracked⟩ := endedBy_some h
  cases response with
  | unrecognized raw reason => cases hverdict
  | success other =>
    cases hverdict
    simp only [dispatch, Table.complete, htracked]
    rfl
  | failure other message stack =>
    cases hverdict
    simp only [dispatch, Table.complete, htracked]
    rfl

/-- The state after a response. -/
theorem dispatch_fst (c : Client) (response : Response) :
    ∃ scratch, (c.dispatch response).1 = { c with
      table := (c.endedBy response).elim c.table fun ended => c.table.erase ended.1, scratch } := by
  cases hended : c.endedBy response with
  | none =>
    obtain ⟨level, text, hdispatch⟩ := dispatch_of_none hended
    exact ⟨c.scratch, by rw [hdispatch]; rfl⟩
  | some ended =>
    obtain ⟨id, inflight, completion⟩ := ended
    rw [dispatch_of_some hended, andThen_fst, finish_fst]
    exact ⟨_, rfl⟩

structure SameSetup (d c : Client) : Prop where
  session : d.session = c.session
  display : d.display = c.display
  inlineLimit : d.inlineLimit = c.inlineLimit
  stager : d.stager = c.stager

theorem SameSetup.trans {c d e : Client} (hlast : e.SameSetup d) (hfirst : d.SameSetup c) :
    e.SameSetup c where
  session := hlast.session.trans hfirst.session
  display := hlast.display.trans hfirst.display
  inlineLimit := hlast.inlineLimit.trans hfirst.inlineLimit
  stager := hlast.stager.trans hfirst.stager

theorem SameSetup.shows {c d : Client} (h : d.SameSetup c) : d.shows = c.shows := by
  funext moment
  simp only [Client.shows, ending, complaint, displayed, h.session, h.display]

theorem finish_setup (c : Client) (id : RequestId) (inflight : Inflight)
    (completion : Completion) : (c.finish id inflight completion).1.SameSetup c := by
  rw [finish_fst]
  exact ⟨rfl, rfl, rfl, rfl⟩

theorem close_setup (c : Client) (ending : Ending) : (c.close ending).1.SameSetup c := by
  obtain ⟨scratch, hclose⟩ := c.close_fst ending
  rw [hclose]
  exact ⟨rfl, rfl, rfl, rfl⟩

theorem register_setup (c : Client) (request : Request) (inflight : Inflight) :
    (c.register request inflight).1.SameSetup c := by
  cases c.registration request inflight with
  | duplicate text hmem hregister hmoments =>
    rw [hregister]
    exact ⟨rfl, rfl, rfl, rfl⟩
  | accepted table written connection hfree hentries hsend hregister hmoments =>
    rw [hregister]
    exact ⟨rfl, rfl, rfl, rfl⟩
  | unwritten written fault connection hfree hsend hregister hmoments =>
    rw [hregister]
    simp only [andThen_fst, finish_fst]
    exact (close_setup _ _).trans ⟨rfl, rfl, rfl, rfl⟩

theorem dispatch_setup (c : Client) (response : Response) :
    (c.dispatch response).1.SameSetup c := by
  obtain ⟨scratch, hstate⟩ := c.dispatch_fst response
  rw [hstate]
  exact ⟨rfl, rfl, rfl, rfl⟩

theorem step_setup (c : Client) (s : Step) : (c.step s).1.SameSetup c := by
  cases s with
  | submit attempt =>
    simp only [step, submit]
    split
    · exact ⟨rfl, rfl, rfl, rfl⟩
    · split <;> exact ⟨rfl, rfl, rfl, rfl⟩
  | query n =>
    simp only [step, query]
    split <;> exact ⟨rfl, rfl, rfl, rfl⟩
  | take =>
    simp only [step, take]
    split
    · exact ⟨rfl, rfl, rfl, rfl⟩
    · exact (register_setup _ _ _).trans ⟨rfl, rfl, rfl, rfl⟩
    · exact ⟨rfl, rfl, rfl, rfl⟩
  | receive =>
    simp only [step, receive]
    split
    · exact ⟨rfl, rfl, rfl, rfl⟩
    · split
      · exact (dispatch_setup _ _).trans ⟨rfl, rfl, rfl, rfl⟩
      · exact (close_setup _ _).trans ⟨rfl, rfl, rfl, rfl⟩
      · exact (close_setup _ _).trans ⟨rfl, rfl, rfl, rfl⟩
      · exact ⟨rfl, rfl, rfl, rfl⟩
  | stop =>
    simp only [step]
    split
    · exact ⟨rfl, rfl, rfl, rfl⟩
    · exact close_setup c .stopped
  | arrive piece => exact ⟨rfl, rfl, rfl, rfl⟩
  | closeOutput => exact ⟨rfl, rfl, rfl, rfl⟩
  | dropRemote => exact ⟨rfl, rfl, rfl, rfl⟩
  | failReads fault => exact ⟨rfl, rfl, rfl, rfl⟩
  | failWrites after => exact ⟨rfl, rfl, rfl, rfl⟩
  | failFlushes fault => exact ⟨rfl, rfl, rfl, rfl⟩
  | erase path => exact ⟨rfl, rfl, rfl, rfl⟩

end RemoteEval.Client
