import RemoteEval.Proofs.Client.Answers

/-!
What a client hears, and what of it decides a request. The loop takes responses until it ends and
none after that; so a request ends by the first response with its id that comes once it is
registered, and if none comes, by the end of the loop. What the loop takes is what the remote end
has written, from its start on.
-/
namespace RemoteEval

def firstFor (id : RequestId) (events : List Response) : Option Response :=
  events.find? fun response => response.id? == some id

/-- How a request ends that has heard these responses, and of the end of the loop or not. -/
def verdictOf (id : RequestId) (events : List Response) (ended : Bool) : Option Completion :=
  match firstFor id events with
  | some response => response.verdict?.map Prod.snd
  | none => if ended then some (.failure .connectionClosed) else none

def heard (id : RequestId) (history : List Moment) : List Response :=
  responses (history.dropWhile fun moment => !moment.registers id)

namespace Moment

def ends : Moment → Bool
  | .ended _ => true
  | _ => false

def ofLoop : Moment → Bool
  | .registered _ _ _ => true
  | .dispatched _ => true
  | .ended _ => true
  | _ => false

theorem ends_of_not_ofLoop {moment : Moment} (h : moment.ofLoop = false) :
    moment.ends = false := by
  cases moment <;> first | rfl | cases h

theorem ends_of_ofEnding {moment : Moment} (h : moment.ofEnding = false) :
    moment.ends = false := by
  cases moment <;> first | rfl | cases h

end Moment

def EndsOnce (moments : List Moment) : Prop :=
  moments.Pairwise fun first second => first.ends = true → second.ofLoop = false

namespace EndsOnce

/-- The loop may end behind moments at which it goes on. -/
theorem append {first second : List Moment} (hgoes : ∀ moment ∈ first, moment.ends = false)
    (h : EndsOnce second) : EndsOnce (first ++ second) := by
  induction first with
  | nil => exact h
  | cons moment rest ih =>
    rw [List.forall_mem_cons] at hgoes
    refine List.pairwise_cons.2 ⟨fun later _ hends => ?_, ih hgoes.2⟩
    cases hgoes.1.symm.trans hends

theorem of_ended {ending : Ending} {rest : List Moment}
    (h : ∀ moment ∈ rest, moment.ofLoop = false) : EndsOnce (.ended ending :: rest) := by
  refine List.pairwise_cons.2 ⟨fun later hlater _ => h later hlater, ?_⟩
  have hgoes : ∀ moment ∈ rest, moment.ends = false :=
    fun moment hmem => Moment.ends_of_not_ofLoop (h moment hmem)
  have hrest := append hgoes List.Pairwise.nil
  rwa [List.append_nil] at hrest

end EndsOnce

theorem firstFor_append_of_forall {id : RequestId} {earlier : List Response}
    (h : ∀ response ∈ earlier, response.id? ≠ some id) (later : List Response) :
    firstFor id (earlier ++ later) = firstFor id later := by
  have hnone : firstFor id earlier = none := by
    rw [firstFor, List.find?_eq_none]
    intro response hresponse
    simpa using h response hresponse
  rw [firstFor, List.find?_append, ← firstFor, hnone, Option.none_or]
  rfl

theorem responses_of_not_ofLoop {moments : List Moment}
    (h : ∀ moment ∈ moments, moment.ofLoop = false) : responses moments = [] := by
  rw [responses, List.filterMap_eq_nil_iff]
  intro moment hmoment
  have hquiet := h moment hmoment
  cases moment <;> first | rfl | cases hquiet

/-- A response that answers another request, or none, is passed over. -/
theorem verdictOf_cons_of_ne {id : RequestId} {response : Response} (h : response.id? ≠ some id)
    (events : List Response) (ended : Bool) :
    verdictOf id (response :: events) ended = verdictOf id events ended := by
  rw [verdictOf, verdictOf, firstFor, List.find?_cons_of_neg (by simpa using h)]
  rfl

theorem verdictOf_cons_of_eq {id : RequestId} {response : Response} (h : response.id? = some id)
    (events : List Response) (ended : Bool) :
    verdictOf id (response :: events) ended = response.verdict?.map Prod.snd := by
  rw [verdictOf, firstFor, List.find?_cons_of_pos (by simpa using h)]

/-- A response decides the request whose id it carries. -/
theorem Moment.decides_dispatched (id : RequestId) (response : Response) :
    (Moment.dispatched response).decides id =
      if response.id? = some id then response.verdict?.map Prod.snd else none := by
  cases response with
  | unrecognized raw reason => rfl
  | success other => simp [Moment.decides, Response.verdict?, Response.id?]
  | failure other message stack => simp [Moment.decides, Response.verdict?, Response.id?]

/-- What moments do to a request that waits before them goes by the responses among them, and by
whether the loop ends. -/
theorem outcome_eq (id : RequestId) {moments : List Moment} (h : EndsOnce moments) :
    outcome id moments = verdictOf id (responses moments) (moments.any Moment.ends) := by
  induction moments with
  | nil => rfl
  | cons moment rest ih =>
    obtain ⟨hfirst, hrest⟩ := List.pairwise_cons.1 h
    have hlater := ih hrest
    have hcons : outcome id (moment :: rest) = (moment.decides id).or (outcome id rest) := by
      rw [outcome, List.findSome?_cons]
      cases moment.decides id <;> rfl
    rw [hcons, hlater]
    cases moment with
    | registered request inflight written => rfl
    | answered other result => rfl
    | finished other inflight completion => rfl
    | ended ending =>
      have hnone : responses rest = [] :=
        responses_of_not_ofLoop fun later hmem => hfirst later hmem rfl
      have hsame : responses (.ended ending :: rest) = responses rest := rfl
      rw [hsame, hnone]
      rfl
    | dispatched response =>
      have hcome : responses (.dispatched response :: rest) = response :: responses rest := rfl
      have hends : (Moment.dispatched response :: rest).any Moment.ends =
          rest.any Moment.ends := rfl
      rw [hcome, hends, Moment.decides_dispatched]
      by_cases hid : response.id? = some id
      · obtain ⟨verdict, hverdict⟩ : ∃ verdict, response.verdict? = some verdict := by
          rw [Response.id?_eq, Option.map_eq_some_iff] at hid
          obtain ⟨verdict, hverdict, -⟩ := hid
          exact ⟨verdict, hverdict⟩
        rw [if_pos hid, verdictOf_cons_of_eq hid, hverdict]
        rfl
      · rw [if_neg hid, verdictOf_cons_of_ne hid, Option.none_or]

/-- A request that is registered at some moment is registered before the loop ends. -/
theorem any_ends_dropWhile {id : RequestId} {moments : List Moment} (h : EndsOnce moments)
    {moment : Moment} (hmem : moment ∈ moments) (hregisters : moment.registers id = true) :
    (moments.dropWhile fun moment => !moment.registers id).any Moment.ends =
      moments.any Moment.ends := by
  have hsplit := List.takeWhile_append_dropWhile (p := fun moment => !moment.registers id)
    (l := moments)
  have hfront : (moments.takeWhile fun moment => !moment.registers id).any Moment.ends = false := by
    rw [List.any_eq_false]
    intro first hfirst hends
    have hlater : moment ∈ moments.dropWhile fun moment => !moment.registers id := by
      rw [← hsplit] at hmem
      refine (List.mem_append.1 hmem).resolve_left fun hearlier => ?_
      have hnot := List.mem_takeWhile_imp hearlier
      simp [hregisters] at hnot
    rw [EndsOnce, ← hsplit, List.pairwise_append] at h
    have hquiet := h.2.2 first hfirst moment hlater hends
    cases moment <;> first | cases hregisters | cases hquiet
  calc
    (moments.dropWhile fun moment => !moment.registers id).any Moment.ends =
        ((moments.takeWhile fun moment => !moment.registers id) ++
          moments.dropWhile fun moment => !moment.registers id).any Moment.ends := by
      rw [List.any_append, hfront, Bool.false_or]
    _ = moments.any Moment.ends := by rw [hsplit]

/-- If no response has been taken when a request is registered, it hears all that are taken. -/
theorem heard_append {id : RequestId} {first : List Moment} {moment : Moment}
    (hmem : moment ∈ first) (hregisters : moment.registers id = true)
    (hnone : responses first = []) (second : List Moment) :
    heard id (first ++ second) = responses (first ++ second) := by
  have hsome : ((first.dropWhile fun moment => !moment.registers id).isEmpty) = false := by
    cases hrest : first.dropWhile fun moment => !moment.registers id with
    | nil =>
      have hall := List.dropWhile_eq_nil_iff.1 hrest moment hmem
      simp [hregisters] at hall
    | cons _ _ => rfl
  have hsub : responses (first.dropWhile fun moment => !moment.registers id) = [] := by
    refine List.sublist_nil.1 ?_
    rw [← hnone]
    exact (List.dropWhile_sublist _).filterMap _
  rw [heard, List.dropWhile_append, hsome, if_neg Bool.false_ne_true, responses_append,
    responses_append, hnone]
  exact congrArg (· ++ _) hsub

namespace Client

/-- When the loop ends it does nothing more. -/
theorem closing_eq_cons (c : Client) (ending : Ending) :
    ∃ rest, c.closing ending = .ended ending :: rest ∧ ∀ moment ∈ rest, moment.ofLoop = false := by
  refine ⟨_, rfl, fun moment hmem => ?_⟩
  rcases List.mem_append.1 hmem with hfinished | hrefused
  · obtain ⟨entry, -, rfl⟩ := List.mem_map.1 hfinished
    rfl
  · obtain ⟨command, -, hrefusal⟩ := List.mem_filterMap.1 hrefused
    cases command with
    | send request inflight =>
      cases hrefusal
      rfl
    | outstanding n => cases hrefusal

theorem Ended.not_ofLoop {c : Client} (h : c.Ended) (steps : List Step) :
    ∀ moment ∈ c.history steps, moment.ofLoop = false := by
  intro moment hmem
  obtain ⟨id, result, rfl⟩ := h.history steps moment hmem
  rfl

theorem Ended.run_closed {c : Client} (h : c.Ended) (steps : List Step) :
    (c.run steps).1.closed = true := by
  induction steps generalizing c with
  | nil => exact h.closed
  | cons s rest ih => exact ih (h.step s).1

/-- Over a run the loop ends once at most, and if it does the client counts as closed. -/
theorem history_endsOnce {c : Client} (hopen : c.closed = false) (steps : List Step) :
    EndsOnce (c.history steps) ∧ (c.run steps).1.closed = (c.history steps).any Moment.ends := by
  induction steps generalizing c with
  | nil => exact ⟨List.Pairwise.nil, hopen⟩
  | cons s rest ih =>
    rw [history, run, andThen_fst, List.any_append]
    cases step_course hopen s with
    | runs hstill hmoments =>
      obtain ⟨honce, hclosed⟩ := ih hstill
      have hgoes : ∀ moment ∈ c.happens s, moment.ends = false :=
        fun moment hmem => Moment.ends_of_ofEnding (hmoments moment hmem)
      have hnone : (c.happens s).any Moment.ends = false := by simpa using hgoes
      rw [hnone, Bool.false_or]
      exact ⟨honce.append hgoes, hclosed⟩
    | ends front d ending hended hmoments hfront hremote =>
      obtain ⟨closing, hclosing, hquiet⟩ := d.closing_eq_cons ending
      rw [hmoments, hclosing, hended.run_closed rest]
      refine ⟨?_, by simp [Moment.ends]⟩
      rw [List.append_assoc, List.cons_append]
      refine EndsOnce.append (fun moment hmem => ?_) (.of_ended fun moment hmem => ?_)
      · cases moment with
        | ended other => exact absurd hmem (hfront other)
        | _ => rfl
      · rcases List.mem_append.1 hmem with hmem | hmem
        · exact hquiet moment hmem
        · exact hended.not_ofLoop rest moment hmem

/-- How a request that has been registered ends goes by what the loop has taken since. -/
theorem decided_eq {c : Client} (hopen : c.closed = false) {steps : List Step} {id : RequestId}
    {moment : Moment} (hmem : moment ∈ c.history steps) (hregisters : moment.registers id = true) :
    decided id (c.history steps) =
      verdictOf id (heard id (c.history steps)) (c.run steps).1.closed := by
  obtain ⟨honce, hclosed⟩ := history_endsOnce hopen steps
  rw [decided, outcome_eq id (honce.sublist (List.dropWhile_sublist _)), hclosed,
    any_ends_dropWhile honce hmem hregisters]
  rfl

/-- The loop takes the stream from its start. -/
theorem responses_prefix_stream {c : Client} (hopen : c.closed = false) (steps : List Step) :
    responses (c.history steps) <+: c.stream steps := by
  induction steps generalizing c with
  | nil => exact List.nil_prefix
  | cons s rest ih =>
    rw [history, responses_append, step_stream hopen]
    refine (List.prefix_append_right_inj _).2 ?_
    cases step_course hopen s with
    | runs hstill hmoments => exact ih hstill
    | ends front d ending hended hmoments hfront hremote =>
      rw [responses_of_not_ofLoop (hended.not_ofLoop rest)]
      exact List.nil_prefix

end Client

end RemoteEval
