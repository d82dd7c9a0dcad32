import RemoteEval.Proofs.Client.Ledger
import RemoteEval.Proofs.Client.Shown
import RemoteEval.Proofs.Client.Stream

/-!
Every ticket gets the answer to its own request. How a registered request ends is decided by the
first response with its id, or by the end of the loop if that comes first; a response touches the
request whose id it carries and no other; and when the loop ends because the remote end has
closed its output, no response that was written before is left out.
-/
namespace RemoteEval

theorem Response.id?_eq (response : Response) :
    response.id? = response.verdict?.map Prod.fst := by
  cases response <;> rfl

namespace Client

/-- A response concerns no request but the one that it ends. -/
structure Confined (c : Client) (response : Response) : Prop where
  table_kept : ∀ id, response.id? ≠ some id →
    (c.dispatch response).1.table.get? id = c.table.get? id
  ignored : c.endedBy response = none → (c.dispatch response).1 = c
  shown : (c.dispatch response).2.filter Effect.ofRequest =
    (c.endedBy response).elim [] fun (id, inflight, completion) => c.ending id inflight completion
  logged : ∀ effect ∈ (c.dispatch response).2,
    effect.ofRequest = true ∨ ∃ level text, effect = .log level text

theorem finish_logged (c : Client) (id : RequestId) (inflight : Inflight)
    (completion : Completion) : ∀ effect ∈ (c.finish id inflight completion).2,
      effect.ofRequest = true ∨ ∃ level text, effect = .log level text := by
  intro effect heffect
  simp only [finish, List.mem_append, List.mem_cons, List.not_mem_nil, or_false] at heffect
  rcases heffect with (hcalled | hreleased) | rfl | rfl
  · split at hcalled
    · cases List.mem_singleton.1 hcalled
      exact .inl rfl
    · cases hcalled
  · unfold releaseFile at hreleased
    split at hreleased
    · cases hreleased
    · split at hreleased
      · cases List.mem_singleton.1 hreleased
        exact .inl rfl
      · simp only [List.mem_cons, List.not_mem_nil, or_false] at hreleased
        rcases hreleased with rfl | rfl
        · exact .inl rfl
        · exact .inr ⟨_, _, rfl⟩
  · exact .inl rfl
  · exact .inl rfl

theorem dispatch_logged (c : Client) (response : Response) :
    ∀ effect ∈ (c.dispatch response).2,
      effect.ofRequest = true ∨ ∃ level text, effect = .log level text := by
  intro effect heffect
  cases hended : c.endedBy response with
  | none =>
    obtain ⟨level, text, hdispatch⟩ := dispatch_of_none hended
    rw [hdispatch] at heffect
    exact .inr ⟨level, text, List.mem_singleton.1 heffect⟩
  | some ended =>
    obtain ⟨id, inflight, completion⟩ := ended
    rw [dispatch_of_some hended, andThen_snd] at heffect
    rcases List.mem_append.1 heffect with hcomplaint | hfinished
    · change effect ∈ c.complaint inflight.origin completion at hcomplaint
      rw [← aboutRequests_complaint] at hcomplaint
      exact .inl (List.mem_filter.1 hcomplaint).2
    · exact finish_logged _ _ _ _ effect hfinished

theorem dispatch_confined (c : Client) (response : Response) : c.Confined response := by
  obtain ⟨scratch, hstate⟩ := c.dispatch_fst response
  have hshown : (c.dispatch response).2.filter Effect.ofRequest =
      (c.dispatching response).flatMap c.shows := c.aboutRequests_dispatch response
  unfold dispatching at hshown
  cases hended : c.endedBy response with
  | none =>
    obtain ⟨level, text, hdispatch⟩ := dispatch_of_none hended
    refine ⟨?_, ?_, ?_, c.dispatch_logged response⟩
    · intro id _
      rw [hdispatch]
    · intro _
      rw [hdispatch]
    · rw [hshown, hended]
      rfl
  | some ended =>
    obtain ⟨id, inflight, completion⟩ := ended
    obtain ⟨hverdict, htracked⟩ := endedBy_some hended
    rw [hended] at hstate
    refine ⟨?_, ?_, ?_, c.dispatch_logged response⟩
    · intro other hother
      have hne : other ≠ id := by
        rintro rfl
        exact hother (response.id?_eq.trans (by rw [hverdict]; rfl))
      rw [hstate]
      exact (c.table.get?_erase id other).trans (if_neg hne)
    · intro hnone
      rw [hended] at hnone
      cases hnone
    · rw [hshown, hended]
      exact List.append_nil _

end Client

/-- A registered request ends as its history decides. -/
theorem Standing.finished_eq {a : Attempt} {p : Place} {history : List Moment}
    (h : Standing a p history) {request : Request} {inflight : Inflight} {written : List UInt8}
    (hmem : .registered request inflight written ∈ dealings a.id history) :
    (dealings a.id history).filterMap Moment.finished? =
      (decided a.id history).toList.map fun completion => (a.id, completion) := by
  cases h with
  | queued other entry hof hdealings => simp [hdealings] at hmem
  | refused closed why hdealings => simp [hdealings] at hmem
  | waiting other entry sent hof hdealings hdecided =>
    rw [hdealings, hdecided]
    rfl
  | finished closed other entry sent completion hof hdealings hdecided =>
    rw [hdealings, hdecided]
    rfl
  | unwritten closed other entry sent hof hdealings hdecided =>
    rw [hdealings, hdecided]
    rfl

/-- A registered request's ticket is resolved as its history decides. -/
theorem Ledger.resolved_run {c : Client} {steps : List Step}
    (h : Ledger (attempts steps) (c.run steps).1 (c.history steps))
    {request : Request} {inflight : Inflight} {written : List UInt8}
    (hmem : .registered request inflight written ∈ c.history steps) :
    (c.run steps).2.filter (Effect.resolves request.id) =
      (decided request.id (c.history steps)).toList.map (.resolved request.id) := by
  have hdealt : .registered request inflight written ∈ dealings request.id (c.history steps) :=
    List.mem_filter.2 ⟨hmem, beq_self_eq_true request.id⟩
  obtain ⟨a, ha, hid⟩ := h.mem_calls hdealt
  rw [← hid] at hdealt ⊢
  have hkind : ∀ effect, Effect.resolves a.id effect = true → effect.ofRequest = true := by
    intro effect heffect
    exact Effect.ofRequest_of_ofEnd (Effect.ofEnd_of_resolves heffect)
  have hothers : ∀ moment, moment.about a.id = false →
      (c.shows moment).filter (Effect.resolves a.id) = [] := by
    intro moment hmoment
    cases moment with
    | finished id entry completion =>
      have hne : id ≠ a.id := by simpa [Moment.about] using hmoment
      exact (c.filter_ending_resolves id a.id entry completion).trans (if_neg hne)
    | _ => rfl
  have hshown : ∀ moment ∈ dealings a.id (c.history steps),
      (c.shows moment).filter (Effect.resolves a.id) =
        moment.finished?.elim [] fun e => [.resolved e.1 e.2] := by
    intro moment hmoment
    cases moment with
    | finished id entry completion =>
      have hsame : id = a.id := by simpa [Moment.about] using (List.mem_filter.1 hmoment).2
      exact (c.filter_ending_resolves id a.id entry completion).trans (if_pos hsame)
    | _ => rfl
  rw [c.filter_run_dealings steps hkind hothers, flatMap_shown hshown,
    (h.standing a ha).finished_eq hdealt]
  cases decided a.id (c.history steps) <;> rfl

structure Answered (c : Client) (steps : List Step) : Prop where
  /-- A registered request's ticket is resolved once its own response has come, or the loop has
  ended, and as the first of the two decides. -/
  own : ∀ request inflight written, .registered request inflight written ∈ c.history steps →
    (c.run steps).2.filter (Effect.resolves request.id) =
      (decided request.id (c.history steps)).toList.map (.resolved request.id)
  confined : ∀ before, before <+: steps → ∀ response, (c.run before).1.Confined response
  streamed : .ended .remoteClosed ∈ c.history steps →
    ∃ before after, c.history steps = before ++ .ended .remoteClosed :: after ∧
      responses before = c.stream steps ∧ (∀ moment ∈ before, moment.ofEnding = false) ∧
      responses after = []

/-- In every run of a client whose calls have distinct ids, every ticket gets the answer to its own
request. -/
theorem Client.every_ticket_gets_its_own_answer (connection : Connection) (config : Config)
    (stager : Stager) (scratch : Scratch) (steps : List Step)
    (hids : ((attempts steps).map Attempt.id).Nodup) :
    Answered (Client.new connection config stager scratch) steps where
  own := by
    intro request inflight written hmem
    exact ((Ledger.new connection config stager scratch).run hids).resolved_run hmem
  confined := by
    intro before _ response
    exact Client.dispatch_confined _ response
  streamed := by
    intro hended
    exact Client.run_stream rfl hended

/-- One of two requests is answered, by the first of the responses to it; the other still waits
when the remote end closes its output. A response to neither is ignored. -/
theorem Client.every_ticket_gets_its_own_answer_when_closed :
    let client := Client.new { peer := "repl" } {} {}
    let steps : List Step := [.submit ⟨"a", "", "buffer", .default, .text "1", {}⟩,
      .submit ⟨"b", "", "buffer", .default, .text "2", {}⟩, .take, .take,
      .arrive (Text.Utf8.encode "(success \"b\") (success \"z\") (success \"b\")".toList),
      .receive, .receive, .receive, .closeOutput, .receive]
    (responses (client.history steps)).map Response.id? = [some "b", some "z", some "b"] ∧
      (client.history steps).filterMap Moment.finished? =
        [("b", .success), ("a", .failure .connectionClosed)] ∧
      .ended .remoteClosed ∈ client.history steps ∧ Answered client steps := by
  intro client steps
  have hended : (client.history steps).any (fun | .ended .remoteClosed => true | _ => false) := by
    decide +kernel
  have hmem : .ended .remoteClosed ∈ client.history steps := by
    obtain ⟨moment, hmem, hmoment⟩ := List.any_eq_true.1 hended
    split at hmoment
    · exact hmem
    · cases hmoment
  exact ⟨by decide +kernel, by decide +kernel, hmem,
    Client.every_ticket_gets_its_own_answer { peer := "repl" } {} {} {} steps (by decide)⟩

end RemoteEval
