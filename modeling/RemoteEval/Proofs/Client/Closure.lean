import RemoteEval.Proofs.Client.Balance
import RemoteEval.Proofs.Client.Docket

/-!
The end of the loop. The loop ends because it is stopped, because nothing can be read any more, or
because a request cannot be written; whichever it is, the client counts as closed only when every
registered request has ended and every queued one has been refused. From then on senders are
answered and nothing else happens.
-/
namespace RemoteEval

open scoped List

namespace Client

inductive Ends (c : Client) : Step → Ending → Prop where
  | stopped : Ends c .stop .stopped
  | remoteClosed (hreceive : c.connection.receive.1 = .ended) : Ends c .receive .remoteClosed
  | unreadable (fault : Fault) (hreceive : c.connection.receive.1 = .failed fault) :
      Ends c .receive (.io fault)
  | unwritable (request : Request) (inflight : Inflight) (rest : List Command) (fault : Fault)
      (hqueue : c.queue = .send request inflight :: rest) (hfree : request.id ∉ c.table.ids)
      (hfault : (c.connection.send request).2.1 = some fault) : Ends c .take (.io fault)

theorem take_closed_iff {c : Client} (hopen : c.closed = false) :
    (c.step .take).1.closed = true ↔ ∃ ending, c.Ends .take ending := by
  constructor
  · intro hclosed
    change c.take.1.closed = true at hclosed
    unfold take at hclosed
    split at hclosed
    · rw [hopen] at hclosed
      cases hclosed
    · next request inflight rest hqueue =>
      cases registration { c with queue := rest } request inflight with
      | duplicate text hmem hregister hmoments =>
        rw [hregister] at hclosed
        exact absurd (hopen.symm.trans hclosed) Bool.false_ne_true
      | accepted table written connection hfree hentries hsend hregister hmoments =>
        rw [hregister] at hclosed
        exact absurd (hopen.symm.trans hclosed) Bool.false_ne_true
      | unwritten written fault connection hfree hsend hregister hmoments =>
        exact ⟨.io fault, .unwritable request inflight rest fault hqueue hfree
          (congrArg (fun sent => sent.2.1) hsend)⟩
    · rw [hopen] at hclosed
      cases hclosed
  · rintro ⟨ending, hends⟩
    cases hends with
    | unwritable request inflight rest fault hqueue hfree hfault =>
      change c.take.1.closed = true
      unfold take
      rw [hqueue]
      cases registration { c with queue := rest } request inflight with
      | duplicate text hmem hregister hmoments => exact absurd hmem hfree
      | accepted table written connection hnew hentries hsend hregister hmoments =>
        rw [show c.connection.send request = (written, none, connection) from hsend] at hfault
        cases hfault
      | unwritten written other connection hnew hsend hregister hmoments =>
        simp only [hregister, andThen_fst]
        exact (close_ended _ _).closed

theorem receive_closed_iff {c : Client} (hopen : c.closed = false) :
    (c.step .receive).1.closed = true ↔ ∃ ending, c.Ends .receive ending := by
  have hstep : (c.step .receive).1 = c.receive.1 := rfl
  unfold receive at hstep
  rw [if_neg (by simp [hopen])] at hstep
  cases hreceive : c.connection.receive with
  | mk receipt connection =>
    have hreceipt := congrArg Prod.fst hreceive
    simp only [hreceive] at hstep
    rw [hstep]
    constructor
    · intro hclosed
      cases receipt with
      | response response =>
        obtain ⟨scratch, hstate⟩ := dispatch_fst { c with connection } response
        rw [hstate] at hclosed
        exact absurd (hopen.symm.trans hclosed) Bool.false_ne_true
      | ended => exact ⟨_, .remoteClosed hreceipt⟩
      | failed fault => exact ⟨_, .unreadable fault hreceipt⟩
      | waiting => exact absurd (hopen.symm.trans hclosed) Bool.false_ne_true
    · rintro ⟨ending, hends⟩
      cases hends with
      | remoteClosed hended =>
        obtain rfl := hreceipt.symm.trans hended
        exact (close_ended _ _).closed
      | unreadable fault hfailed =>
        obtain rfl := hreceipt.symm.trans hfailed
        exact (close_ended _ _).closed

/-- A step closes an open client if it ends the loop, and not otherwise. -/
theorem step_closed_iff {c : Client} (hopen : c.closed = false) (s : Step) :
    (c.step s).1.closed = true ↔ ∃ ending, c.Ends s ending := by
  have hnothing : ∀ t : Step, (c.step t).1.closed = false → (∀ ending, ¬ c.Ends t ending) →
      ((c.step t).1.closed = true ↔ ∃ ending, c.Ends t ending) := by
    intro t hstep hnone
    simp [hstep, hnone]
  cases s with
  | submit a =>
    refine hnothing _ ?_ (by rintro ending ⟨⟩)
    change (c.submit a).1.closed = false
    unfold submit
    split
    · exact hopen
    · split <;> exact hopen
  | query n =>
    refine hnothing _ ?_ (by rintro ending ⟨⟩)
    change (c.query n).1.closed = false
    unfold query
    split <;> exact hopen
  | take => exact take_closed_iff hopen
  | receive => exact receive_closed_iff hopen
  | stop =>
    have hstep : c.step .stop = c.close .stopped := by simp [step, hopen]
    rw [hstep]
    exact iff_of_true (close_ended c .stopped).closed ⟨_, .stopped⟩
  | arrive piece => exact hnothing _ hopen (by rintro ending ⟨⟩)
  | closeOutput => exact hnothing _ hopen (by rintro ending ⟨⟩)
  | dropRemote => exact hnothing _ hopen (by rintro ending ⟨⟩)
  | failReads fault => exact hnothing _ hopen (by rintro ending ⟨⟩)
  | failWrites after => exact hnothing _ hopen (by rintro ending ⟨⟩)
  | failFlushes fault => exact hnothing _ hopen (by rintro ending ⟨⟩)
  | erase path => exact hnothing _ hopen (by rintro ending ⟨⟩)

def lateError (c : Client) (a : Attempt) : Error :=
  match c.checked a with
  | .error why => why
  | .ok _ => .connectionClosed

/-- What a step does after the end of the loop: senders and askers are answered. -/
def late (c : Client) : Step → List Effect
  | .submit a => flash a ++ [.answered a.id (.error (c.lateError a))]
  | .query n => [.listed n (.error .connectionClosed)]
  | _ => []

theorem late_congr {c d : Client} (h : d.checked = c.checked) : d.late = c.late := by
  funext s
  cases s <;> simp only [late, lateError, h]

theorem Ended.step_snd {c : Client} (h : c.Ended) (s : Step) : (c.step s).2 = c.late s := by
  obtain ⟨hclosed, hqueue⟩ := h
  cases s with
  | submit a =>
    change (c.submit a).2 = flash a ++ [.answered a.id (.error (c.lateError a))]
    unfold submit lateError
    cases hprepare : c.prepare a with
    | error why => rw [prepare_error hprepare]
    | ok prepared =>
      obtain ⟨request, staged, scratch⟩ := prepared
      rw [prepare_ok hprepare]
      simp only [if_pos hclosed]
  | query n => simp [Client.step, query, late, hclosed]
  | take => simp [Client.step, take, late, hqueue]
  | receive => simp [Client.step, receive, late, hclosed]
  | stop => simp [Client.step, late, hclosed]
  | arrive piece => rfl
  | closeOutput => rfl
  | dropRemote => rfl
  | failReads fault => rfl
  | failWrites after => rfl
  | failFlushes fault => rfl
  | erase path => rfl

theorem Ended.run {c : Client} (h : c.Ended) (steps : List Step) :
    (c.run steps).1.Ended ∧ (c.run steps).2 = steps.flatMap c.late := by
  induction steps generalizing c with
  | nil => exact ⟨h, rfl⟩
  | cons s rest ih =>
    obtain ⟨hended, hlate⟩ := ih (h.step s).1
    refine ⟨hended, ?_⟩
    rw [Client.run, andThen_snd, hlate, late_congr (c.step_checked s), h.step_snd,
      List.flatMap_cons]

/-- After the end of the loop nothing is seen but answers and highlights. -/
theorem mem_late {c : Client} {s : Step} {effect : Effect} (h : effect ∈ c.late s) :
    (∃ id why, effect = .answered id (.error why)) ∨
      (∃ n, effect = .listed n (.error .connectionClosed)) ∨
      ∃ a start stop, s = .submit a ∧ effect = .editor (.flash a.origin start stop) := by
  unfold late at h
  split at h
  · next a =>
    rcases List.mem_append.1 h with hflash | hanswered
    · unfold flash at hflash
      split at hflash
      · exact .inr (.inr ⟨a, _, _, rfl, List.mem_singleton.1 hflash⟩)
      · cases hflash
    · exact .inl ⟨_, _, List.mem_singleton.1 hanswered⟩
  · exact .inr (.inl ⟨_, List.mem_singleton.1 h⟩)
  · cases h

theorem closed_of_atRest {c : Client} (hrest : c.closed = true → c.AtRest) (steps : List Step)
    (hclosed : c.closed = true) : (c.run steps).1.closed = true :=
  ((hrest hclosed).ended.run steps).1.closed

/-- The loop has ended after a run if one of its steps has ended it. -/
theorem run_closed_iff {c : Client} (hopen : c.closed = false) (steps : List Step) :
    (c.run steps).1.closed = true ↔ ∃ front s back ending, steps = front ++ s :: back ∧
      (c.run front).1.closed = false ∧ (c.run front).1.Ends s ending := by
  have hrest : c.closed = true → c.AtRest := by
    intro hclosed
    exact absurd (hopen.symm.trans hclosed) Bool.false_ne_true
  constructor
  · intro hclosed
    induction steps generalizing c with
    | nil => exact absurd (hopen.symm.trans hclosed) Bool.false_ne_true
    | cons s rest ih =>
      cases hstep : (c.step s).1.closed with
      | true =>
        obtain ⟨ending, hends⟩ := (step_closed_iff hopen s).1 hstep
        exact ⟨[], s, rest, ending, rfl, hopen, hends⟩
      | false =>
        obtain ⟨front, t, back, ending, rfl, hstill, hends⟩ := ih hstep
          (fun h => absurd (hstep.symm.trans h) Bool.false_ne_true) hclosed
        exact ⟨s :: front, t, back, ending, rfl, hstill, hends⟩
  · rintro ⟨front, s, back, ending, rfl, hstill, hends⟩
    have hstep := (step_closed_iff hstill s).2 ⟨ending, hends⟩
    rw [run_append, andThen_fst]
    exact closed_of_atRest (((c.run front).1.step_change s).atRest (run_atRest hrest front)) back
      hstep

/-- What holds once a client counts as closed: of the run until then, and of any steps after. -/
structure Settled (c : Client) (before after : List Step) : Prop where
  table_nil : (c.run before).1.table.entries = []
  queue_nil : (c.run before).1.queue = []
  unlisted : (c.run before).1.outstanding = .error .connectionClosed
  balanced : leavings (c.history before) ~ (entries (c.history before)).map tracking
  shown : aboutRequests (c.run before).2 = (c.history before).flatMap c.shows
  finished : ∀ request inflight written,
    .registered request inflight written ∈ c.history before →
    ∃ completion, c.ending request.id inflight completion <:+: aboutRequests (c.run before).2
  /-- Every call has returned. One that passes its checks and whose request the loop has not taken
  is told that the connection is closed, and its request is not registered. -/
  returned : ∃ settled, Docket c before settled [] ∧
    ∀ e ∈ settled, ∀ entry, c.checked e.1 = .ok entry → e.2.taken = false →
      e.2.result e.1 = .error .connectionClosed ∧ e.2.registered = false
  still_closed : (c.run (before ++ after)).1.closed = true
  seen : (c.run (before ++ after)).2 = (c.run before).2 ++ after.flatMap c.late
  quiet : ∀ effect ∈ after.flatMap c.late,
    (∃ id why, effect = .answered id (.error why)) ∨
      (∃ n, effect = .listed n (.error .connectionClosed)) ∨
      ∃ a ∈ attempts after, ∃ start stop, effect = .editor (.flash a.origin start stop)
  unregistered : (c.history (before ++ after)).filterMap Moment.registered? =
    (c.history before).filterMap Moment.registered?

structure Closure (c : Client) (before after : List Step) : Prop where
  cause : (c.run before).1.closed = true ↔ ∃ front s back ending, before = front ++ s :: back ∧
    (c.run front).1.closed = false ∧ (c.run front).1.Ends s ending
  settled : (c.run before).1.closed = true → c.Settled before after
  racing : ∀ (d : Client) (left : List (RequestId × Inflight)) (others : List Step)
    (out : Client × List Effect), d.closed = false → d.Winds left others out →
    d.WoundUp left others out
  unraced : ∀ (d : Client) (ending : Ending), ∃ out,
    Winds { d with table := .empty } d.table.entries [] out ∧
      d.close ending = andThen out fun e => (e, endingLog ending)

theorem settled_of_closed {c : Client} {before : List Step} (htable : c.table.entries = [])
    (hwaiting : c.waiting = []) (hrest : c.closed = true → c.AtRest)
    (hclosed : (c.run before).1.closed = true) (after : List Step) : c.Settled before after := by
  obtain ⟨hended, hentries⟩ := run_atRest hrest before hclosed
  obtain ⟨hstill, hlate⟩ := hended.run after
  rw [late_congr (c.run_checked before)] at hlate
  have hbalanced : leavings (c.history before) ~ (entries (c.history before)).map tracking := by
    have hconserved := c.conserves_run before
    rw [htable, hentries, List.nil_append, List.append_nil] at hconserved
    exact hconserved.symm
  refine ⟨hentries, hended.queue_nil, ?_, hbalanced, c.aboutRequests_run before, ?_, ?_, ?_, ?_, ?_,
    ?_⟩
  · rw [outstanding, if_pos hclosed]
  · intro request inflight written hmem
    have hleaving : (request.id, inflight) ∈ leavings (c.history before) :=
      hbalanced.mem_iff.2 (List.mem_map.2 ⟨(request, inflight), mem_entries.2 ⟨written, hmem⟩, rfl⟩)
    obtain ⟨moment, hmoment, hleaves⟩ := List.mem_filterMap.1 hleaving
    cases moment with
    | finished id entry completion =>
      cases hleaves
      exact ⟨completion, isInfix_shows hmoment⟩
    | _ => cases hleaves
  · obtain ⟨settled, waiting, hdocket⟩ := exists_docket hrest hwaiting before
    obtain rfl : waiting = [] := by
      have hnone := hdocket.waiting_eq
      rw [waiting_eq_nil hended.queue_nil] at hnone
      exact List.map_eq_nil_iff.1 hnone.symm
    exact ⟨settled, hdocket, fun e he entry => (hdocket.fits e he).untaken⟩
  · rw [run_append]
    exact hstill.closed
  · rw [run_append, andThen_snd, hlate]
  · intro effect heffect
    obtain ⟨s, hs, hlate⟩ := List.mem_flatMap.1 heffect
    rcases mem_late hlate with hanswered | hlisted | ⟨a, start, stop, rfl, hflash⟩
    · exact .inl hanswered
    · exact .inr (.inl hlisted)
    · exact .inr (.inr ⟨a, List.mem_filterMap.2 ⟨_, hs, rfl⟩, start, stop, hflash⟩)
  · have hnone : ((c.run before).1.history after).filterMap Moment.registered? = [] :=
      filterMap_of_answered (fun _ _ => rfl) (hended.history after)
    rw [history_append, List.filterMap_append, hnone, List.append_nil]

/-- In every run a client counts as closed only when all is settled, whatever has ended its loop and
whatever ids its calls have. -/
theorem closed_when_all_is_settled (connection : Connection) (config : Config) (stager : Stager)
    (scratch : Scratch) (before after : List Step) :
    (Client.new connection config stager scratch).Closure before after where
  cause := run_closed_iff rfl before
  settled := fun hclosed => settled_of_closed rfl rfl (new_atRest _ _ _ _) hclosed after
  racing := by
    intro d left others out hopen hwinds
    exact hwinds.woundUp hopen
  unraced := winds_close

/-- Of four calls, two of one id, the loop has taken three when it is stopped: one waits for its
response and one has been refused for its id; a call comes after the end. -/
theorem closed_when_all_is_settled_by_stopping :
    let before : List Step := [.submit ⟨"a", "", "buffer", .default, .text "1", {}⟩,
      .submit ⟨"a", "", "buffer", .default, .text "2", {}⟩, .take, .take,
      .submit ⟨"b", "", "buffer", .default, .text "3", { onFailure := true }⟩, .take,
      .submit ⟨"b", "", "buffer", .default, .text "4", {}⟩, .stop]
    ((Client.new { peer := "repl" } {} {}).run before).1.closed = true ∧
      (Client.new { peer := "repl" } {} {}).Closure before
        [.submit ⟨"c", "", "buffer", .default, .selection "5" 0 1, {}⟩, .query 0] :=
  ⟨rfl, closed_when_all_is_settled { peer := "repl" } {} {} {} _ _⟩

end Client

end RemoteEval
