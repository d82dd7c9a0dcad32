import RemoteEval.Proofs.Client.Life

/-!
What one step can do to one request. Of a client only three things matter to a request: what
stands in the queue under its id, what the table holds for it, and whether the loop has ended. A
step moves the request on in one of few ways, or leaves it where it is; whatever a run does to a
request follows from that.
-/
namespace RemoteEval

/-- Where the request with an id stands: what is queued under the id, what the table holds for it,
and whether the loop has ended. -/
structure Place where
  queued : List (Request × Inflight)
  tracked : Option Inflight
  closed : Bool

def Client.place (c : Client) (id : RequestId) : Place :=
  ⟨c.queued id, c.table.get? id, c.closed⟩

def Place.afterEnd : Place := ⟨[], none, true⟩

inductive Call (a : Attempt) (p : Place) : List Moment → Place → Prop where
  | refused (why : Error) : Call a p [.answered a.id (.error why)] p
  | queued (request : Request) (inflight : Inflight) (horigin : inflight.origin = a.origin)
      (hcallbacks : inflight.callbacks = a.callbacks) (hopen : p.closed = false) :
      Call a p [] { p with queued := p.queued ++ [(request, inflight)] }

/-- What any other step can do to the request with an id: which moments happen, and where the
request stands afterwards. -/
inductive Turn (id : RequestId) (p : Place) : List Moment → Place → Prop where
  | aside {moments : List Moment} (hdealings : dealings id moments = [])
      (houtcome : p.tracked = none ∨ outcome id moments = none) : Turn id p moments p
  | duplicate (queued : Request × Inflight) (rest : List (Request × Inflight))
      (hqueued : p.queued = queued :: rest) (htracked : p.tracked ≠ none) :
      Turn id p [.answered id (.error (.duplicateId id))] { p with queued := rest }
  | accepted (request : Request) (inflight : Inflight) (written : List UInt8)
      (rest : List (Request × Inflight)) (hid : request.id = id)
      (hqueued : p.queued = (request, inflight) :: rest) (hfree : p.tracked = none) :
      Turn id p [.registered request inflight written, .answered id (.ok ())]
        { p with queued := rest, tracked := some inflight }
  | unwritten {moments : List Moment} (request : Request) (inflight : Inflight)
      (written : List UInt8) (rest : List (Request × Inflight))
      (hqueued : p.queued = (request, inflight) :: rest) (hfree : p.tracked = none)
      (hdealings : dealings id moments =
        [.registered request inflight written,
          .finished id inflight (.failure .connectionClosed),
          .answered id (.error .connectionClosed)] ++
        rest.map fun _ => .answered id (.error .connectionClosed))
      (hdecided : decided id moments = some (.failure .connectionClosed)) :
      Turn id p moments .afterEnd
  | ended {moments : List Moment}
      (hdealings : dealings id moments =
        (p.tracked.toList.map fun inflight =>
          .finished id inflight (.failure .connectionClosed)) ++
        p.queued.map fun _ => .answered id (.error .connectionClosed))
      (houtcome : outcome id moments = some (.failure .connectionClosed)) :
      Turn id p moments .afterEnd
  | responded {moments : List Moment} (inflight : Inflight) (completion : Completion)
      (htracked : p.tracked = some inflight)
      (hdealings : dealings id moments = [.finished id inflight completion])
      (houtcome : outcome id moments = some completion) :
      Turn id p moments { p with tracked := none }

namespace Client

theorem close_place (c : Client) (id : RequestId) (ending : Ending) :
    (c.close ending).1.place id = .afterEnd := by
  obtain ⟨scratch, hclose⟩ := c.close_fst ending
  rw [hclose]
  rfl

theorem close_turn (c : Client) (id : RequestId) (ending : Ending) :
    Turn id (c.place id) (c.closing ending) ((c.close ending).1.place id) := by
  rw [close_place]
  exact .ended (c.dealings_closing id ending) (c.outcome_closing id ending)

theorem prepare_id {c : Client} {a : Attempt} {request : Request} {staged : Option String}
    {scratch : Scratch} (h : c.prepare a = .ok (request, staged, scratch)) :
    request.id = a.id := by
  unfold prepare at h
  split at h
  · cases h
  · split at h
    · cases h
      rfl
    · split at h
      · cases h
      · cases h
        rfl

theorem queued_snoc (c : Client) (request : Request) (inflight : Inflight) (id : RequestId)
    (scratch : Scratch) :
    place { c with queue := c.queue ++ [.send request inflight], scratch } id =
      { c.place id with
        queued := c.queued id ++ if request.id = id then [(request, inflight)] else [] } := by
  by_cases hid : request.id = id <;> simp [place, queued, Command.sends?, hid]

theorem queued_cons {c : Client} {request : Request} {inflight : Inflight} {rest : List Command}
    (hqueue : c.queue = .send request inflight :: rest) (id : RequestId) :
    c.queued id = (if request.id = id then [(request, inflight)] else []) ++
      { c with queue := rest }.queued id := by
  by_cases hid : request.id = id <;> simp [queued, hqueue, Command.sends?, hid]

theorem submit_call (c : Client) (a : Attempt) :
    Call a (c.place a.id) (c.submitting a) ((c.submit a).1.place a.id) := by
  unfold submitting submit
  cases hprepare : c.prepare a with
  | error why => exact .refused why
  | ok prepared =>
    obtain ⟨request, staged, scratch⟩ := prepared
    by_cases hclosed : c.closed = true
    · simp only [if_pos hclosed]
      exact .refused .connectionClosed
    · simp only [if_neg hclosed]
      rw [c.queued_snoc request ⟨a.origin, a.callbacks, staged⟩ a.id scratch,
        if_pos (prepare_id hprepare)]
      have hopen : (c.place a.id).closed = false := by simpa [place] using hclosed
      exact .queued request ⟨a.origin, a.callbacks, staged⟩ rfl rfl hopen

theorem submit_turn (c : Client) {a : Attempt} {id : RequestId} (hid : a.id ≠ id) :
    Turn id (c.place id) (c.submitting a) ((c.submit a).1.place id) := by
  have hother : ∀ result, dealings id [.answered a.id result] = [] := by
    intro result
    simp [dealings, Moment.about, hid]
  unfold submitting submit
  cases hprepare : c.prepare a with
  | error why => exact .aside (hother _) (.inr rfl)
  | ok prepared =>
    obtain ⟨request, staged, scratch⟩ := prepared
    have hrequest : request.id ≠ id := by
      rw [prepare_id hprepare]
      exact hid
    by_cases hclosed : c.closed = true
    · simp only [if_pos hclosed]
      exact .aside (hother _) (.inr rfl)
    · simp only [if_neg hclosed]
      rw [c.queued_snoc request ⟨a.origin, a.callbacks, staged⟩ id scratch, if_neg hrequest,
        List.append_nil]
      exact .aside rfl (.inr rfl)

/-- The loop takes a request from the queue. -/
theorem register_turn {c : Client} {request : Request} {inflight : Inflight}
    {rest : List Command} (hqueue : c.queue = .send request inflight :: rest) (id : RequestId) :
    Turn id (c.place id) ({ c with queue := rest }.registering request inflight)
      (({ c with queue := rest }.register request inflight).1.place id) := by
  have hqueued := queued_cons hqueue id
  cases registration { c with queue := rest } request inflight with
  | duplicate text hmem hregister hmoments =>
    rw [hregister, hmoments]
    by_cases hid : request.id = id
    · subst hid
      rw [if_pos rfl] at hqueued
      refine .duplicate (request, inflight) _ hqueued ?_
      rw [← Option.isSome_iff_ne_none]
      exact Table.isSome_get? hmem
    · rw [if_neg hid, List.nil_append] at hqueued
      have hafter : place { c with
          queue := rest
          scratch := inflight.staged.elim c.scratch c.scratch.remove } id = c.place id := by
        simp only [place, hqueued]
        rfl
      rw [hafter]
      exact .aside (by simp [dealings, Moment.about, hid]) (.inr rfl)
  | accepted table written connection hfree hentries hsend hregister hmoments =>
    have htable := Table.get?_of_entries_append hfree hentries id
    rw [hregister, hmoments]
    by_cases hid : request.id = id
    · subst hid
      rw [if_pos rfl] at hqueued htable
      have hafter : place { c with table, connection, queue := rest } request.id =
          { c.place request.id with
            queued := { c with queue := rest }.queued request.id, tracked := some inflight } := by
        simp only [place, htable]
        rfl
      rw [hafter]
      exact .accepted request inflight written _ rfl hqueued
        ((Table.get?_eq_none_iff c.table request.id).2 hfree)
    · rw [if_neg hid, List.nil_append] at hqueued
      rw [if_neg (Ne.symm hid)] at htable
      have hafter : place { c with table, connection, queue := rest } id = c.place id := by
        simp only [place, htable, hqueued]
        rfl
      rw [hafter]
      exact .aside (by simp [dealings, Moment.about, hid]) (.inr rfl)
  | unwritten written fault connection hfree hsend hregister hmoments =>
    have hclosing := dealings_closing { c with queue := rest } id (.io fault)
    rw [hregister, hmoments]
    simp only [andThen_fst, close_place]
    by_cases hid : request.id = id
    · subst hid
      rw [if_pos rfl] at hqueued
      have hnone := (Table.get?_eq_none_iff c.table request.id).2 hfree
      refine .unwritten request inflight written _ hqueued hnone ?_ ?_
      · rw [dealings_append, hclosing]
        simp [dealings, Moment.about, hnone]
      · simp only [decided, Moment.registers, List.cons_append, beq_self_eq_true, Bool.not_true,
          List.dropWhile_cons_of_neg, Bool.false_eq_true, not_false_eq_true]
        rfl
    · rw [if_neg hid, List.nil_append] at hqueued
      refine .ended ?_ rfl
      rw [dealings_append, hclosing, ← hqueued]
      simp [dealings, Moment.about, hid, place]

theorem take_turn (c : Client) (id : RequestId) :
    Turn id (c.place id) c.taking (c.take.1.place id) := by
  unfold taking take
  cases hqueue : c.queue with
  | nil => exact .aside rfl (.inr rfl)
  | cons command rest =>
    cases command with
    | send request inflight => exact register_turn hqueue id
    | outstanding n =>
      have hafter : place { c with queue := rest } id = c.place id := by
        simp only [place, queued, hqueue]
        rfl
      simp only [hafter]
      exact .aside rfl (.inr rfl)

theorem dispatch_turn (c : Client) (id : RequestId) (response : Response) :
    Turn id (c.place id) (c.dispatching response) ((c.dispatch response).1.place id) := by
  obtain ⟨scratch, hstate⟩ := c.dispatch_fst response
  rw [hstate]
  unfold dispatching
  cases hended : c.endedBy response with
  | none =>
    refine .aside rfl ?_
    cases hverdict : response.verdict? with
    | none => exact .inr (by simp [outcome, Moment.decides, hverdict])
    | some verdict =>
      obtain ⟨other, completion⟩ := verdict
      by_cases hid : other = id
      · exact .inl (hid ▸ endedBy_none hended hverdict)
      · exact .inr (by simp [outcome, Moment.decides, hverdict, hid])
  | some ended =>
    obtain ⟨other, inflight, completion⟩ := ended
    obtain ⟨hverdict, htracked⟩ := endedBy_some hended
    have herase := c.table.get?_erase other id
    by_cases hid : other = id
    · subst hid
      rw [if_pos rfl] at herase
      have hafter : place { c with table := c.table.erase other, scratch } other =
          { c.place other with tracked := none } := by
        simp only [place, herase]
        rfl
      change Turn _ _ _ (place { c with table := c.table.erase other, scratch } other)
      rw [hafter]
      refine .responded inflight completion htracked ?_ ?_
      · simp [dealings, Moment.about]
      · simp [outcome, Moment.decides, hverdict]
    · rw [if_neg (Ne.symm hid)] at herase
      have hafter : place { c with table := c.table.erase other, scratch } id = c.place id := by
        simp only [place, herase]
        rfl
      change Turn _ _ _ (place { c with table := c.table.erase other, scratch } id)
      rw [hafter]
      refine .aside ?_ (.inr ?_)
      · simp [dealings, Moment.about, hid]
      · simp [outcome, Moment.decides, hverdict, hid]

theorem receive_turn (c : Client) (id : RequestId) :
    Turn id (c.place id) c.receiving (c.receive.1.place id) := by
  unfold receiving receive
  by_cases hclosed : c.closed = true
  · rw [if_pos hclosed, if_pos hclosed]
    exact .aside rfl (.inr rfl)
  · rw [if_neg hclosed, if_neg hclosed]
    obtain ⟨receipt, connection⟩ := c.connection.receive
    cases receipt with
    | response response => exact dispatch_turn { c with connection } id response
    | ended => exact close_turn { c with connection } id .remoteClosed
    | failed fault => exact close_turn { c with connection } id (.io fault)
    | waiting => exact .aside rfl (.inr rfl)

/-- Every step is a turn of every request but the one that it sends. -/
theorem step_turn (c : Client) {id : RequestId} {s : Step}
    (hother : ∀ a, s = .submit a → a.id ≠ id) :
    Turn id (c.place id) (c.happens s) ((c.step s).1.place id) := by
  have hnothing : Turn id (c.place id) [] (c.place id) := .aside rfl (.inr rfl)
  cases s with
  | submit attempt => exact c.submit_turn (hother attempt rfl)
  | query n =>
    have hafter : (c.query n).1.place id = c.place id := by
      unfold query
      split
      · rfl
      · simp [place, queued, Command.sends?]
    change Turn id (c.place id) [] ((c.query n).1.place id)
    rw [hafter]
    exact hnothing
  | take => exact c.take_turn id
  | receive => exact c.receive_turn id
  | stop =>
    simp only [step, happens]
    split
    · exact hnothing
    · exact c.close_turn id .stopped
  | arrive piece => exact hnothing
  | closeOutput => exact hnothing
  | dropRemote => exact hnothing
  | failReads fault => exact hnothing
  | failWrites after => exact hnothing
  | failFlushes fault => exact hnothing
  | erase path => exact hnothing

end Client

end RemoteEval
