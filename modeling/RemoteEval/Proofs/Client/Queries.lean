import RemoteEval.Proofs.Client.Answers
import RemoteEval.Proofs.Client.Winding

/-!
Queries for the ids that are outstanding. A query waits in the queue as requests do. The loop
answers it when it takes it, or refuses it when it ends; so queries are answered in the order in
which they are asked, each of them once.
-/
namespace RemoteEval

def Step.query? : Step → Option Nat
  | .query n => some n
  | _ => none

def Command.query? : Command → Option Nat
  | .outstanding n => some n
  | .send _ _ => none

def Effect.listing? : Effect → Option (Nat × Except Error (List RequestId))
  | .listed n result => some (n, result)
  | _ => none

def queries (steps : List Step) : List Nat := steps.filterMap Step.query?

def listings (effects : List Effect) : List (Nat × Except Error (List RequestId)) :=
  effects.filterMap Effect.listing?

def unlisted (n : Nat) : Nat × Except Error (List RequestId) := (n, .error .connectionClosed)

theorem queries_cons (s : Step) (rest : List Step) :
    queries (s :: rest) = s.query?.toList ++ queries rest := by
  rw [queries, List.filterMap_cons]
  cases s.query? <;> rfl

theorem listings_append (first second : List Effect) :
    listings (first ++ second) = listings first ++ listings second :=
  List.filterMap_append

theorem mem_listings {effects : List Effect} {n : Nat} {result : Except Error (List RequestId)} :
    (n, result) ∈ listings effects ↔ .listed n result ∈ effects := by
  rw [listings, List.mem_filterMap]
  constructor
  · rintro ⟨effect, heffect, hlisting⟩
    cases effect with
    | listed other found =>
      cases hlisting
      exact heffect
    | _ => cases hlisting
  · intro hmem
    exact ⟨_, hmem, rfl⟩

namespace Client

def asking (c : Client) : List Nat := c.queue.filterMap Command.query?

theorem listings_of_logged {effects : List Effect} (h : ∀ effect ∈ effects,
    effect.ofRequest = true ∨ ∃ level text, effect = .log level text) : listings effects = [] := by
  refine List.filterMap_eq_nil_iff.2 fun effect heffect => ?_
  rcases h effect heffect with hrequest | ⟨level, text, rfl⟩
  · cases effect <;> first | rfl | cases hrequest
  · rfl

theorem listings_finish (c : Client) (id : RequestId) (inflight : Inflight)
    (completion : Completion) : listings (c.finish id inflight completion).2 = [] :=
  listings_of_logged (c.finish_logged id inflight completion)

theorem listings_finishAll (c : Client) (entries : List (RequestId × Inflight)) :
    listings (c.finishAll entries).2 = [] := by
  induction entries generalizing c with
  | nil => rfl
  | cons entry rest ih =>
    rw [finishAll, andThen_snd, listings_append, listings_finish, ih]
    rfl

/-- A query that is left in the queue is refused like everything else there. -/
theorem listings_refuseAll (c : Client) (commands : List Command) :
    listings (c.refuseAll commands).2 = (commands.filterMap Command.query?).map unlisted := by
  induction commands generalizing c with
  | nil => rfl
  | cons command rest ih =>
    cases command <;>
    · rw [refuseAll, andThen_snd, listings_append, ih]
      rfl

theorem listings_close (c : Client) (ending : Ending) :
    listings (c.close ending).2 = c.asking.map unlisted := by
  obtain ⟨scratch, hfinish⟩ := finishAll_fst { c with table := .empty } c.table.entries
  have hlog : listings (endingLog ending) = [] := by cases ending <;> rfl
  unfold close
  simp only [Table.drain, andThen_snd, listings_append, listings_finishAll, listings_refuseAll,
    hfinish, hlog, List.nil_append, List.append_nil]
  rfl

inductive Asks (c : Client) (s : Step) (d : Client)
    (answers : List (Nat × Except Error (List RequestId))) : Prop where
  | waits (hasking : d.asking = c.asking ++ s.query?.toList) (hanswers : answers = [])
  | late (n : Nat) (hasked : s.query? = some n) (hclosed : d.closed = true)
      (hasking : d.asking = c.asking) (hstill : c.closed = true) (hanswers : answers = [unlisted n])
  | listed (n : Nat) (rest : List Command) (hstep : s = .take)
      (hqueue : c.queue = .outstanding n :: rest) (hasking : c.asking = n :: d.asking)
      (hanswers : answers = [(n, .ok c.table.ids)])
  | ended (hnone : s.query? = none) (hended : d.Ended) (hanswers : answers = c.asking.map unlisted)

variable {n : Nat} {ids : List RequestId}

theorem close_asks {c : Client} {s : Step} (hnone : s.query? = none) (ending : Ending)
    (connection : Connection) :
    let d := { c with connection }.close ending
    c.Asks s d.1 (listings d.2) :=
  .ended hnone (close_ended _ ending) (listings_close _ ending)

theorem submit_asks (c : Client) (a : Attempt) :
    c.Asks (.submit a) (c.submit a).1 (listings (c.submit a).2) := by
  have hflash : listings (flash a) = [] := by
    unfold flash
    split <;> rfl
  have hstaged : ∀ scratch staged, listings (stagedFile scratch staged) = [] := by
    intro scratch staged
    cases staged <;> rfl
  unfold submit
  split
  · refine .waits (List.append_nil _).symm ?_
    rw [listings_append, hflash]
    rfl
  · split
    · refine .waits (List.append_nil _).symm ?_
      rw [listings_append, hflash]
      rfl
    · refine .waits ?_ ?_
      · rw [asking, List.filterMap_append]
        rfl
      · rw [listings_append, hflash, hstaged]
        rfl

theorem query_asks (c : Client) (n : Nat) :
    c.Asks (.query n) (c.query n).1 (listings (c.query n).2) := by
  unfold query
  split
  · next hclosed => exact .late n rfl hclosed rfl hclosed rfl
  · refine .waits ?_ rfl
    rw [asking, List.filterMap_append]
    rfl

theorem take_asks (c : Client) : c.Asks .take c.take.1 (listings c.take.2) := by
  unfold take
  cases hqueue : c.queue with
  | nil => exact .waits (List.append_nil _).symm rfl
  | cons command rest =>
    have hasking : c.asking = command.query?.toList ++ { c with queue := rest }.asking := by
      rw [asking, hqueue, List.filterMap_cons]
      cases command.query? <;> rfl
    cases command with
    | outstanding n => exact .listed n rest rfl hqueue hasking rfl
    | send request inflight =>
      simp only
      cases registration { c with queue := rest } request inflight with
      | duplicate text hmem hregister hmoments =>
        rw [hregister]
        exact .waits (hasking.symm.trans (List.append_nil _).symm) rfl
      | accepted table written connection hfree hentries hsend hregister hmoments =>
        rw [hregister]
        exact .waits (hasking.symm.trans (List.append_nil _).symm) rfl
      | unwritten written fault connection hfree hsend hregister hmoments =>
        rw [hregister]
        refine .ended rfl (close_ended _ (.io fault)) ?_
        simp only [andThen_snd, listings_append, listings_finish, listings_close, finish_fst]
        rw [hasking]
        rfl

theorem receive_asks (c : Client) : c.Asks .receive c.receive.1 (listings c.receive.2) := by
  have hnothing : ∀ d : Client, d.queue = c.queue → d.asking = c.asking ++ [] := by
    intro d hqueue
    rw [asking, hqueue, List.append_nil, asking]
  unfold receive
  split
  · exact .waits (hnothing c rfl) rfl
  · obtain ⟨receipt, connection⟩ := c.connection.receive
    cases receipt with
    | response response =>
      obtain ⟨scratch, hstate⟩ := dispatch_fst { c with connection } response
      refine .waits (hnothing _ ?_) (listings_of_logged (dispatch_logged _ response))
      rw [hstate]
    | ended => exact close_asks rfl .remoteClosed connection
    | failed fault => exact close_asks rfl (.io fault) connection
    | waiting => exact .waits (hnothing _ rfl) rfl

theorem step_asks (c : Client) (s : Step) : c.Asks s (c.step s).1 (listings (c.step s).2) := by
  have hnothing : ∀ {t : Step}, t.query? = none → c.asking = c.asking ++ t.query?.toList := by
    intro t hnone
    rw [hnone]
    exact (List.append_nil _).symm
  cases s with
  | submit a => exact c.submit_asks a
  | query n => exact c.query_asks n
  | take => exact c.take_asks
  | receive => exact c.receive_asks
  | stop =>
    simp only [step]
    split
    · exact .waits (hnothing rfl) rfl
    · exact close_asks rfl .stopped c.connection
  | arrive piece => exact .waits (hnothing rfl) rfl
  | closeOutput => exact .waits (hnothing rfl) rfl
  | dropRemote => exact .waits (hnothing rfl) rfl
  | failReads fault => exact .waits (hnothing rfl) rfl
  | failWrites after => exact .waits (hnothing rfl) rfl
  | failFlushes fault => exact .waits (hnothing rfl) rfl
  | erase path => exact .waits (hnothing rfl) rfl

/-- Ids are listed only when the loop takes a query, and they are those in the table. -/
theorem listed_of_step {c : Client} {s : Step} (h : .listed n (.ok ids) ∈ (c.step s).2) :
    s = .take ∧ ids = c.table.ids ∧ ∃ rest, c.queue = .outstanding n :: rest := by
  have hmem := mem_listings.2 h
  cases c.step_asks s with
  | waits hasking hanswers =>
    rw [hanswers] at hmem
    cases hmem
  | late m hasked hclosed hasking hstill hanswers =>
    rw [hanswers] at hmem
    cases List.mem_singleton.1 hmem
  | listed m rest hstep hqueue hasking hanswers =>
    rw [hanswers] at hmem
    cases List.mem_singleton.1 hmem
    exact ⟨hstep, rfl, rest, hqueue⟩
  | ended hnone hended hanswers =>
    rw [hanswers] at hmem
    obtain ⟨m, -, hrefused⟩ := List.mem_map.1 hmem
    cases hrefused

/-- A query is refused only because the loop has ended. -/
theorem unlisted_of_step {c : Client} {s : Step} {why : Error}
    (h : .listed n (.error why) ∈ (c.step s).2) :
    why = .connectionClosed ∧ (c.step s).1.closed = true := by
  have hmem := mem_listings.2 h
  cases c.step_asks s with
  | waits hasking hanswers =>
    rw [hanswers] at hmem
    cases hmem
  | late m hasked hclosed hasking hstill hanswers =>
    rw [hanswers] at hmem
    cases List.mem_singleton.1 hmem
    exact ⟨rfl, hclosed⟩
  | listed m rest hstep hqueue hasking hanswers =>
    rw [hanswers] at hmem
    cases List.mem_singleton.1 hmem
  | ended hnone hended hanswers =>
    rw [hanswers] at hmem
    obtain ⟨m, -, hrefused⟩ := List.mem_map.1 hmem
    cases hrefused
    exact ⟨rfl, hended.closed⟩

theorem asked_step {c : Client} (hrest : c.closed = true → c.AtRest) (s : Step) :
    c.asking ++ s.query?.toList =
      (listings (c.step s).2).map Prod.fst ++ (c.step s).1.asking := by
  cases c.step_asks s with
  | waits hasking hanswers =>
    rw [hanswers, hasking]
    rfl
  | late n hasked hclosed hasking hstill hanswers =>
    have hnone : c.asking = [] := by
      rw [asking, (hrest hstill).ended.queue_nil]
      rfl
    rw [hanswers, hasking, hnone, hasked]
    rfl
  | listed n rest hstep hqueue hasking hanswers =>
    subst hstep
    rw [hanswers, hasking]
    exact List.append_nil _
  | ended hnone hended hanswers =>
    rw [hanswers, hnone, List.map_map, asking, asking, hended.queue_nil]
    exact congrArg (· ++ []) (List.map_id _).symm

/-- Queries are answered in the order in which they are asked; those that are not answered wait. -/
theorem asked_run {c : Client} (hrest : c.closed = true → c.AtRest) (steps : List Step) :
    c.asking ++ queries steps =
      (listings (c.run steps).2).map Prod.fst ++ (c.run steps).1.asking := by
  induction steps generalizing c with
  | nil => exact List.append_nil _
  | cons s rest ih =>
    have hstep := asked_step hrest s
    have hlater := ih ((c.step_change s).atRest hrest)
    rw [queries_cons, ← List.append_assoc, hstep, List.append_assoc, hlater, run, andThen_snd,
      listings_append, List.map_append, List.append_assoc]
    rfl

/-- However others race with the end of the loop, every query that waits or comes in is refused. -/
theorem Winds.listings_eq {c : Client} {left : List (RequestId × Inflight)} {others : List Step}
    {out : Client × List Effect} (h : c.Winds left others out) (hopen : c.closed = false) :
    listings out.2 = (c.asking ++ queries others).map unlisted := by
  induction h with
  | done c =>
    rw [listings_refuseAll, queries, List.filterMap_nil, List.append_nil]
    rfl
  | finish c id inflight hrest ih =>
    rw [andThen_snd, listings_append, listings_finish, ih (by rw [finish_fst]; exact hopen),
      finish_fst]
    rfl
  | amid c s hother hrest ih =>
    have hamid := (c.step_change s).amid hopen hother
    rw [andThen_snd, listings_append, ih hamid.opened, queries_cons]
    cases c.step_asks s with
    | waits hasking hanswers =>
      rw [hanswers, hasking, List.append_assoc]
      rfl
    | late n hasked hclosed hasking hstill hanswers =>
      cases hopen.symm.trans hstill
    | listed n rest hstep hqueue hasking hanswers =>
      subst hstep
      cases hother
    | ended hnone hended hanswers =>
      cases hamid.opened.symm.trans hended.closed

end Client

end RemoteEval
