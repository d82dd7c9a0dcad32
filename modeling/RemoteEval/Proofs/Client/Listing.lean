import RemoteEval.Proofs.Client.Balance
import RemoteEval.Proofs.Client.Files
import RemoteEval.Proofs.Client.Queries

/-!
What the loop lists. Ids are listed only when the loop takes a query, and they are those in the
table: of the requests that have been registered and have not ended. So whoever is told that a
request is registered finds it listed until the response to it is dispatched.
-/
namespace RemoteEval

open scoped List

theorem leavings_ids (moments : List Moment) :
    (leavings moments).map Prod.fst = (moments.filterMap Moment.finished?).map Prod.fst := by
  rw [leavings, List.map_filterMap, List.map_filterMap]
  refine List.filterMap_congr ?_
  intro moment _
  cases moment <;> rfl

namespace Client

/-- Who is told that a request is registered has had it registered. -/
theorem registered_of_answered_run {c : Client} {steps : List Step} {id : RequestId}
    (hmem : .answered id (.ok ()) ∈ c.history steps) :
    id ∈ (c.history steps).filterMap Moment.registered? := by
  induction steps generalizing c with
  | nil => cases hmem
  | cons s rest ih =>
    rw [history, List.filterMap_append, List.mem_append]
    rcases List.mem_append.1 hmem with hnow | hlater
    · obtain ⟨-, request, inflight, -, rfl, hmoments, -⟩ := (c.step_change s).of_accepted hnow
      rw [hmoments]
      exact .inl List.mem_cons_self
    · exact .inr (ih hlater)

/-- What a response ends carries its id. -/
theorem verdict_of_finished {c : Client} {response : Response} {id : RequestId}
    {inflight : Inflight} {completion : Completion}
    (h : .finished id inflight completion ∈ c.dispatching response) :
    response.verdict? = some (id, completion) := by
  rcases List.mem_cons.1 h with hsame | hrest
  · cases hsame
  · split at hrest
    · cases hrest
    · next other found finish hended =>
      cases List.mem_singleton.1 hrest
      exact (endedBy_some hended).1

theorem receiving_of_dispatched {c : Client} {response : Response}
    (h : .dispatched response ∈ c.receiving) : c.receiving = c.dispatching response := by
  have hclosing : ∀ ending : Ending, .dispatched response ∉ c.closing ending := by
    intro ending hmem
    rcases mem_closing hmem with hended | ⟨entry, -, hfinished⟩ | ⟨other, hanswered⟩
    · cases hended
    · cases hfinished
    · cases hanswered
  unfold receiving at h ⊢
  split at h
  · cases h
  · next hopen =>
    rw [if_neg hopen]
    cases hreceipt : c.connection.receive.1 with
    | response other =>
      rw [hreceipt] at h
      rcases List.mem_cons.1 h with hsame | hrest
      · cases hsame
        rfl
      · split at hrest
        · cases hrest
        · cases List.mem_singleton.1 hrest
    | ended =>
      rw [hreceipt] at h
      exact absurd h (hclosing _)
    | failed fault =>
      rw [hreceipt] at h
      exact absurd h (hclosing _)
    | waiting =>
      rw [hreceipt] at h
      cases h

/-- A request ends in a step by the response to it, or because the loop ends. -/
theorem finished_cause {c : Client} {s : Step} {id : RequestId} {inflight : Inflight}
    {completion : Completion} (hmem : .finished id inflight completion ∈ c.happens s) :
    (∃ response, .dispatched response ∈ c.happens s ∧
      response.verdict? = some (id, completion)) ∨ (c.step s).1.closed = true := by
  have hchange := c.step_change s
  generalize hmoments : c.happens s = moments at hchange hmem ⊢
  generalize (c.step s).1 = d at hchange
  cases hchange with
  | responded response other found finish connection scratch htracked hwithout =>
    change c.receiving = _ at hmoments
    have hdispatching : c.receiving = c.dispatching response :=
      receiving_of_dispatched (hmoments ▸ List.mem_cons_self)
    rw [← hmoments, hdispatching] at hmem
    exact .inl ⟨response, List.mem_cons_self, verdict_of_finished hmem⟩
  | unwritten request found rest written fault connection scratch hqueue hsend hwithout =>
    exact .inr rfl
  | ended ending connection scratch hloop hopen hwithout => exact .inr rfl
  | _ => simp at hmem

/-- As long as the loop runs, requests end by their responses. -/
theorem dispatched_of_finished {c : Client} {steps : List Step} {id : RequestId}
    {inflight : Inflight} {completion : Completion} (hrest : c.closed = true → c.AtRest)
    (hopen : (c.run steps).1.closed = false)
    (hmem : .finished id inflight completion ∈ c.history steps) :
    ∃ response, .dispatched response ∈ c.history steps ∧
      response.verdict? = some (id, completion) := by
  induction steps generalizing c with
  | nil => cases hmem
  | cons s rest ih =>
    have hnext : (c.step s).1.closed = true → (c.step s).1.AtRest := (c.step_change s).atRest hrest
    rw [run, andThen_fst] at hopen
    rcases List.mem_append.1 hmem with hnow | hlater
    · rcases finished_cause hnow with ⟨response, hdispatched, hverdict⟩ | hclosed
      · exact ⟨response, List.mem_append_left _ hdispatched, hverdict⟩
      · have hstill := closed_of_atRest hnext rest hclosed
        exact absurd (hopen.symm.trans hstill) Bool.false_ne_true
    · obtain ⟨response, hdispatched, hverdict⟩ := ih hnext hopen hlater
      exact ⟨response, List.mem_append_right _ hdispatched, hverdict⟩

/-- The ids that are listed after some steps are those that have been registered and have not ended
by then. -/
structure Lists (c : Client) (before : List Step) (ids : List RequestId) : Prop where
  nodup : ids.Nodup
  accounted : ((c.history before).filterMap Moment.registered?).Perm
    (((c.history before).filterMap Moment.finished?).map Prod.fst ++ ids)
  mem_iff : ∀ id, id ∈ ids ↔
    (((c.history before).filterMap Moment.finished?).map Prod.fst).count id <
      ((c.history before).filterMap Moment.registered?).count id
  awaited : ∀ id, .answered id (.ok ()) ∈ (c.run before).2 →
    (∀ response, .dispatched response ∈ c.history before →
      ∀ completion, response.verdict? ≠ some (id, completion)) → id ∈ ids

theorem lists {c : Client} {before : List Step} (hstart : c.table.entries = [])
    (hrest : c.closed = true → c.AtRest) (hopen : (c.run before).1.closed = false) :
    c.Lists before (c.run before).1.table.ids := by
  have hperm := c.conserves_run before
  rw [hstart, List.nil_append] at hperm
  have hids : ((c.history before).filterMap Moment.registered?).Perm
      (((c.history before).filterMap Moment.finished?).map Prod.fst ++
        (c.run before).1.table.ids) := by
    have hmap := hperm.map Prod.fst
    rw [List.map_append, List.map_map, leavings_ids] at hmap
    rw [← entries_ids]
    exact hmap
  have hcount : ∀ id, ((c.history before).filterMap Moment.registered?).count id =
      (((c.history before).filterMap Moment.finished?).map Prod.fst).count id +
        (c.run before).1.table.ids.count id := by
    intro id
    rw [hids.count_eq, List.count_append]
  refine ⟨(c.run before).1.table.distinct, hids, ?_, ?_⟩
  · intro id
    rw [hcount, ← List.count_pos_iff]
    omega
  · intro id hanswered hnone
    by_contra hmissing
    have hregistered := registered_of_answered_run (mem_history_of_answered hanswered)
    rw [← List.count_pos_iff, hcount, List.count_eq_zero.2 hmissing, Nat.add_zero,
      List.count_pos_iff] at hregistered
    obtain ⟨⟨other, completion⟩, hfinished, hid⟩ := List.mem_map.1 hregistered
    obtain rfl : other = id := hid
    obtain ⟨moment, hmoment, hsame⟩ := List.mem_filterMap.1 hfinished
    cases moment with
    | finished found inflight finish =>
      cases hsame
      obtain ⟨response, hdispatched, hverdict⟩ := dispatched_of_finished hrest hopen hmoment
      exact hnone response hdispatched completion hverdict
    | _ => cases hsame

structure Mirrored (c : Client) (steps : List Step) : Prop where
  /-- Between steps a context has been told of a beginning without an end for each of its requests
  in the table. -/
  balance : ∀ before, before <+: steps → ∀ context, told context .started (c.run before).2 =
    told context .stopped (c.run before).2 + (c.run before).1.tracked context
  /-- Nowhere, also amid a step, has a context been told of more ends than beginnings. -/
  nonneg : ∀ seen, seen <+: (c.run steps).2 → ∀ context,
    told context .stopped seen ≤ told context .started seen
  asked : ∀ before, before <+: steps → queries before =
    (listings (c.run before).2).map Prod.fst ++ (c.run before).1.asking
  /-- As long as the loop runs a query waits behind all that is in the queue. -/
  queuing : ∀ before, before <+: steps → (c.run before).1.closed = false → ∀ n,
    (c.run before).1.step (.query n) =
      ({ (c.run before).1 with queue := (c.run before).1.queue ++ [.outstanding n] }, [])
  answering : ∀ before, before <+: steps → ∀ n rest,
    (c.run before).1.queue = .outstanding n :: rest →
    ((c.run before).1.step .take).2 = [.listed n (.ok (c.run before).1.table.ids)]
  /-- A query is refused only because the loop has ended, and from then on each is, at once. -/
  refusing : ∀ before s, before ++ [s] <+: steps → ∀ n why,
    .listed n (.error why) ∈ ((c.run before).1.step s).2 →
    why = .connectionClosed ∧ (c.run (before ++ [s])).1.closed = true
  late : ∀ before, before <+: steps → (c.run before).1.closed = true → ∀ n,
    ((c.run before).1.step (.query n)).2 = [.listed n (.error .connectionClosed)]
  listed : ∀ before s, before ++ [s] <+: steps → ∀ n ids,
    .listed n (.ok ids) ∈ ((c.run before).1.step s).2 → c.Lists before ids
  ended : (c.run steps).1.closed = true → ∀ context,
    told context .started (c.run steps).2 = told context .stopped (c.run steps).2
  all_answered : (c.run steps).1.closed = true →
    queries steps = (listings (c.run steps).2).map Prod.fst
  racing : ∀ (d : Client) (left : List (RequestId × Inflight)) (others : List Step)
    (out : Client × List Effect), d.closed = false → d.Winds left others out → ∀ context,
    told context .started out.2 = 0 ∧
      told context .stopped out.2 = left.countP (comesFrom context)
  racing_queries : ∀ (d : Client) (left : List (RequestId × Inflight)) (others : List Step)
    (out : Client × List Effect), d.closed = false → d.Winds left others out →
    listings out.2 = (d.asking ++ queries others).map unlisted

theorem tracked_of_nil {c : Client} (h : c.table.entries = []) (context : String) :
    c.tracked context = 0 := by
  rw [tracked, h, List.countP_nil]

/-- A context has been told of a beginning without an end for each of its requests in the table. -/
theorem told_run {c : Client} (hstart : c.table.entries = []) (steps : List Step)
    (context : String) : told context .started (c.run steps).2 =
      told context .stopped (c.run steps).2 + (c.run steps).1.tracked context := by
  have hbalance := c.balance_run context steps
  rw [tracked_of_nil hstart, Nat.zero_add] at hbalance
  exact hbalance

theorem queries_eq {c : Client} (hasking : c.asking = []) (hrest : c.closed = true → c.AtRest)
    (steps : List Step) : queries steps =
      (listings (c.run steps).2).map Prod.fst ++ (c.run steps).1.asking := by
  have hasked := asked_run hrest steps
  rw [hasking, List.nil_append] at hasked
  exact hasked

theorem mirrored {c : Client} (hstart : c.table.entries = []) (hasking : c.asking = [])
    (hrest : c.closed = true → c.AtRest) (steps : List Step) : c.Mirrored steps where
  balance before _ := told_run hstart before
  nonneg := by
    intro seen hseen context
    have hnonneg := nonneg_run context hseen
    rw [tracked_of_nil hstart, Nat.zero_add] at hnonneg
    exact hnonneg
  asked before _ := queries_eq hasking hrest before
  queuing := by
    intro before _ hopen n
    simp only [step, query, hopen, Bool.false_eq_true, if_false]
  answering := by
    intro before _ n rest hqueue
    simp only [step, take, hqueue]
  refusing := by
    intro before s _ n why hrefused
    rw [run_snoc]
    exact unlisted_of_step hrefused
  late := by
    intro before _ hclosed n
    simp only [step, query, hclosed, if_true]
  listed := by
    intro before s _ n ids hlisted
    obtain ⟨-, rfl, rest, hqueue⟩ := listed_of_step hlisted
    refine lists hstart hrest (Bool.eq_false_iff.2 fun hclosed => ?_)
    rw [(run_atRest hrest before hclosed).ended.queue_nil] at hqueue
    cases hqueue
  ended := by
    intro hclosed context
    rw [told_run hstart, tracked_of_nil (run_atRest hrest steps hclosed).table_eq, Nat.add_zero]
  all_answered := by
    intro hclosed
    rw [queries_eq hasking hrest, asking, (run_atRest hrest steps hclosed).ended.queue_nil]
    exact List.append_nil _
  racing := by
    intro d left others out hopen hwinds context
    exact hwinds.told context hopen
  racing_queries := by
    intro d left others out hopen hwinds
    exact hwinds.listings_eq hopen

/-- In every run progress and the ids that are listed mirror the table, whichever way requests
leave it. -/
theorem progress_and_list_mirror_table (connection : Connection) (config : Config)
    (stager : Stager) (scratch : Scratch) (steps : List Step) :
    (Client.new connection config stager scratch).Mirrored steps :=
  mirrored rfl rfl (new_atRest connection config stager scratch) steps

end Client

end RemoteEval
