import RemoteEval.CommandLine.Program
import RemoteEval.Proofs.Client.Dialogue

/-!
The exit status of a command that makes one call. It says that the call has succeeded exactly when
its request was written and the first response to it is a success, whatever else comes before that;
and that it has failed when the response is a failure, when the connection ends first, or when the
call was refused. A call that is refused is not written, at least not whole.
-/
namespace RemoteEval

open Client

/-- The exit status by what has become of a call; there is none while the response is awaited. -/
def Outcome.status : Outcome → Option Nat
  | .refused _ => some 1
  | .completed .success => some 0
  | .completed (.failure _) => some 1
  | .unanswered => none

inductive Answer (id : RequestId) (events : List Response) : Prop where
  | missing (hnone : firstFor id events = none)
  | success (hfirst : firstFor id events = some (.success id))
  | failure (message : String) (stack : List String)
      (hfirst : firstFor id events = some (.failure id message stack))

theorem answer (id : RequestId) (events : List Response) : Answer id events := by
  cases hfirst : firstFor id events with
  | none => exact .missing hfirst
  | some response =>
    have hid : response.id? = some id := by simpa using List.find?_some hfirst
    cases response with
    | success other =>
      cases hid
      exact .success hfirst
    | failure other message stack =>
      cases hid
      exact .failure message stack hfirst
    | unrecognized raw reason => cases hid

theorem completionIn?_filter (id : RequestId) (effects : List Effect) :
    completionIn? id (effects.filter (Effect.resolves id)) = completionIn? id effects := by
  induction effects with
  | nil => rfl
  | cons effect rest ih =>
    unfold completionIn? at ih ⊢
    cases effect with
    | resolved other completion =>
      by_cases hid : other = id
      · simp [Effect.resolves, hid]
      · simpa [Effect.resolves, hid] using ih
    | _ => simpa [Effect.resolves] using ih

/-- What a command reports of its call `a` is true: of these effects it has seen, and of these
responses its request has heard, and the loop of its client has ended or not. -/
structure Truthful (start : Client) (a : Attempt) (effects : List Effect)
    (events : List Response) (ended : Bool) (status : Option Nat) : Prop where
  success_iff : status = some 0 ↔
    answerIn? a.id effects = some (.ok ()) ∧ firstFor a.id events = some (.success a.id)
  failure_iff : status = some 1 ↔
    (∃ why, answerIn? a.id effects = some (.error why)) ∨
      answerIn? a.id effects = some (.ok ()) ∧
        ((∃ message stack, firstFor a.id events = some (.failure a.id message stack)) ∨
          firstFor a.id events = none ∧ ended = true)
  known : ∀ code ∈ status, code = 0 ∨ code = 1
  sent : answerIn? a.id effects = some (.ok ()) →
    effects.filterMap Effect.wrote? = [start.frame a]
  refused : ∀ why, answerIn? a.id effects = some (.error why) →
    FrontOf (start.frame a) (effects.filterMap Effect.wrote?) ∧
      (effects.filterMap Effect.wrote? ≠ [] → why = .connectionClosed)

/-- What is done after a call has returned, without writing, changes nothing about it. -/
theorem Truthful.append {start : Client} {a : Attempt} {effects : List Effect}
    {events : List Response} {ended : Bool} {status : Option Nat}
    (h : Truthful start a effects events ended status) (hreturned : (answerIn? a.id effects).isSome)
    {more : List Effect} (hquiet : more.filterMap Effect.wrote? = []) :
    Truthful start a (effects ++ more) events ended status := by
  obtain ⟨result, hanswer⟩ := Option.isSome_iff_exists.1 hreturned
  have hsame : answerIn? a.id (effects ++ more) = answerIn? a.id effects :=
    (answerIn?_append hanswer more).trans hanswer.symm
  have hlines : (effects ++ more).filterMap Effect.wrote? = effects.filterMap Effect.wrote? := by
    rw [List.filterMap_append, hquiet, List.append_nil]
  refine ⟨?_, ?_, h.known, ?_, ?_⟩
  · rw [hsame]
    exact h.success_iff
  · rw [hsame]
    exact h.failure_iff
  · rw [hsame, hlines]
    exact h.sent
  · rw [hsame, hlines]
    exact h.refused

/-- Of the responses only the first to the call counts, and that only if the call is not refused. -/
theorem Truthful.congr {start : Client} {a : Attempt} {effects : List Effect}
    {events others : List Response} {ended : Bool} {status : Option Nat}
    (h : Truthful start a effects events ended status)
    (hsame : answerIn? a.id effects = some (.ok ()) →
      firstFor a.id others = firstFor a.id events) :
    Truthful start a effects others ended status := by
  refine ⟨?_, ?_, h.known, h.sent, h.refused⟩
  · rw [h.success_iff]
    refine and_congr_right fun hanswer => ?_
    rw [hsame hanswer]
  · rw [h.failure_iff]
    refine or_congr_right (and_congr_right fun hanswer => ?_)
    rw [hsame hanswer]

/-- Before a call has returned its request has not ended. -/
theorem Client.Stage.completionIn?_eq_none {start c : Client} {a : Attempt} {effects : List Effect}
    (h : Stage start c a (marks effects)) (hanswer : answerIn? a.id effects = none) :
    completionIn? a.id effects = none := by
  rw [← answerIn?_marks] at hanswer
  rw [← completionIn?_marks]
  generalize marks effects = seen at h hanswer
  cases h with
  | queued request inflight hchecked hqueue htable => rfl
  | refused why hwhy hidle => simp [answerIn?] at hanswer
  | broken written hfront hidle => simp [answerIn?] at hanswer
  | tracked entry hchecked hqueue htable => simp [answerIn?] at hanswer
  | ended entry completion hchecked hidle => simp [answerIn?] at hanswer

/-- What a command reports is true if a request that is registered ends as what it hears says. -/
theorem Client.Stage.truthful {start c : Client} {a : Attempt} {effects : List Effect}
    (h : Stage start c a (marks effects)) {events : List Response} {ended : Bool}
    (hends : answerIn? a.id effects = some (.ok ()) →
      completionIn? a.id effects = verdictOf a.id events ended) :
    Truthful start a effects events ended (outcomeOf a.id effects).status := by
  have hwrote := h.wrote
  cases hanswer : answerIn? a.id effects with
  | none =>
    have hstatus : (outcomeOf a.id effects).status = none := by
      rw [outcomeOf, hanswer, h.completionIn?_eq_none hanswer]
      rfl
    rw [hstatus]
    constructor <;> simp [hanswer]
  | some result =>
    cases hwrote with
    | nothing hlines hnone =>
      rw [answerIn?_marks, hanswer] at hnone
      cases hnone
    | part why hpart hcause hrefused hmem =>
      rw [answerIn?_marks, hanswer] at hrefused
      cases hrefused
      rw [wrote_marks] at hpart hcause
      rw [outcomeOf_of_error hanswer]
      refine ⟨?_, ?_, ?_, ?_, fun other hother => ?_⟩
      · simp [Outcome.status, hanswer]
      · simp [Outcome.status, hanswer]
      · simp [Outcome.status]
      · simp [hanswer]
      · cases hanswer.symm.trans hother
        exact ⟨hpart, hcause⟩
    | whole hpassed hlines htold =>
      rw [answerIn?_marks, hanswer] at htold
      cases htold
      rw [wrote_marks] at hlines
      rw [outcomeOf_of_ok hanswer, hends hanswer, verdictOf]
      cases answer a.id events with
      | missing hfirst =>
        rw [hfirst]
        cases ended <;> constructor <;> simp [Outcome.status, hanswer, hfirst, hlines]
      | success hfirst =>
        rw [hfirst]
        constructor <;> simp [Outcome.status, Response.verdict?, hanswer, hfirst, hlines]
      | failure message stack hfirst =>
        rw [hfirst]
        constructor <;> simp [Outcome.status, Response.verdict?, hanswer, hfirst, hlines]

/-- A run in which one call is made. What others see tells the truth about the call, by what its
request hears; and what the loop takes is the start of the stream. -/
structure TellsTruth (start : Client) (a : Attempt) (steps : List Step) : Prop where
  truthful : Truthful start a (start.run steps).2 (heard a.id (start.history steps))
    (start.run steps).1.closed (outcomeOf a.id (start.run steps).2).status
  heard_first : let early := (start.history steps).takeWhile fun moment => !moment.registers a.id
    (∀ response ∈ responses early, response.id? ≠ some a.id) →
      firstFor a.id (heard a.id (start.history steps)) =
        firstFor a.id (responses (start.history steps))
  responses_prefix : responses (start.history steps) <+: start.stream steps
  responses_eq : .ended .remoteClosed ∈ start.history steps →
    responses (start.history steps) = start.stream steps

theorem attempts_of_unasked {steps : List Step} (h : ∀ s ∈ steps, s.unasked = true) :
    attempts steps = [] := by
  rw [attempts, List.filterMap_eq_nil_iff]
  intro s hs
  have hunasked := h s hs
  cases s <;> first | rfl | cases hunasked

/-- A request that is registered ends as what it hears says. -/
theorem completionIn?_run (connection : Connection) (config : Config) (stager : Stager)
    (scratch : Scratch) {steps : List Step} (hids : ((attempts steps).map Attempt.id).Nodup)
    (id : RequestId) :
    let client := Client.new connection config stager scratch
    answerIn? id (client.run steps).2 = some (.ok ()) →
      completionIn? id (client.run steps).2 =
        verdictOf id (heard id (client.history steps)) (client.run steps).1.closed := by
  intro client htold
  obtain ⟨request, inflight, written, hmem, rfl⟩ := exists_registered (mem_of_answerIn? htold)
  have hresolved := ((Ledger.new connection config stager scratch).run hids).resolved_run hmem
  rw [← completionIn?_filter, hresolved, decided_eq rfl hmem (beq_self_eq_true _)]
  cases verdictOf request.id (heard request.id (client.history steps))
      (client.run steps).1.closed with
  | none => rfl
  | some completion => simp [completionIn?]

/-- However the steps of a client are interleaved behind and before its only call, what is seen of
them tells the truth about it. -/
theorem tellsTruth_run (connection : Connection) (config : Config) (stager : Stager)
    (scratch : Scratch) {a : Attempt} (hresolves : (spec a).Resolves) {before after : List Step}
    (hbefore : ∀ s ∈ before, s.unasked = true) (hafter : ∀ s ∈ after, s.unasked = true) :
    TellsTruth (Client.new connection config stager scratch) a (before ++ .submit a :: after) := by
  let client := Client.new connection config stager scratch
  let steps := before ++ .submit a :: after
  let c := (client.run before).1
  obtain ⟨hidle, hsilent⟩ := Idle.run (c := client) ⟨rfl, rfl⟩ hbefore
  have hstage : Stage client (client.run steps).1 a (marks (client.run steps).2) := by
    have hcalled := (Stage.submit hidle (client.run_checked before) hresolves).run hafter
    have hrun : client.run steps =
        andThen (client.run before) fun c => c.run (.submit a :: after) :=
      client.run_append before _
    rw [hrun, andThen_snd, marks_append, hsilent, List.nil_append, Client.run, andThen_snd,
      marks_append]
    exact hcalled
  have hids : ((attempts steps).map Attempt.id).Nodup := by
    have hone : attempts steps = [a] := by
      rw [attempts, List.filterMap_append, ← attempts, attempts_of_unasked hbefore]
      exact congrArg (a :: ·) (attempts_of_unasked hafter)
    rw [hone]
    exact List.nodup_singleton _
  have hends := completionIn?_run connection config stager scratch hids a.id
  refine ⟨hstage.truthful hends, ?_, responses_prefix_stream rfl steps, fun hended => ?_⟩
  · intro early hearly
    have hsplit : responses (client.history steps) =
        responses early ++ heard a.id (client.history steps) := by
      rw [heard, ← responses_append, List.takeWhile_append_dropWhile]
    rw [hsplit, firstFor_append_of_forall hearly]
  · obtain ⟨front, rest, hhistory, hfront, -, hrest⟩ := run_stream rfl hended
    have hdispatched : responses (.ended .remoteClosed :: rest) = [] := hrest
    rw [hhistory, responses_append, hfront, hdispatched, List.append_nil]

namespace CommandLine

/-- A command that makes one call. What it does is what its client does in a run; all that the
remote end says comes in until it hangs up, if the connection goes on so long, and only that ends
the client's loop then; and the exit status tells the truth about the call, by all of the stream
that has come in. -/
structure Commands (client : Client) (a : Attempt) (moves : List Move) (finished : Finished)
    (steps : List Step) (came : List (List UInt8)) : Prop where
  unasked : ∀ s ∈ steps, s.unasked = true
  effects_eq : ∃ shut, finished.effects = (client.run (.submit a :: steps)).2 ++ shut ∧
    shut.filterMap Effect.wrote? = []
  came_prefix : came <+: said moves
  came_eq : answerIn? a.id finished.effects = some (.ok ()) → client.connection.Live →
    came = said moves
  hung_up : answerIn? a.id finished.effects = some (.ok ()) → .hangUp ∈ moves →
    (client.run (.submit a :: steps)).1.closed = true
  stays_open : answerIn? a.id finished.effects = some (.ok ()) → client.connection.Live →
    .hangUp ∉ moves → (client.run (.submit a :: steps)).1.closed = false
  truthful : Truthful client a finished.effects (client.connection.rest came)
    (client.run (.submit a :: steps)).1.closed finished.status

theorem shutDown_effects (c : Client) (effects : List Effect) :
    ∃ shut, (shutDown c effects).2 = effects ++ shut ∧ shut.filterMap Effect.wrote? = [] := by
  refine ⟨(c.step .stop).2, rfl, ?_⟩
  have hwrote := c.wrote_run [.stop]
  rw [Client.run, andThen_snd, Client.run, List.append_nil, history, history,
    List.append_nil] at hwrote
  rw [hwrote, happens]
  split
  · rfl
  · exact c.wrote_closing .stopped

/-- A command whose body cannot be had fails without a call. -/
theorem runTask_of_error {inputs : Inputs} {task : Task} {report : Report}
    (h : bodyOf inputs task = .error report) (counterpart : Counterpart) (spec : Namespace.Spec)
    (c : Client) :
    (runTask inputs counterpart spec c task).status = some 1 ∧
      (runTask inputs counterpart spec c task).effects.filterMap Effect.wrote? = [] := by
  obtain ⟨shut, hshut, hquiet⟩ := shutDown_effects c []
  simp only [runTask, h]
  refine ⟨rfl, ?_⟩
  change (shutDown c []).2.filterMap Effect.wrote? = []
  rw [hshut]
  exact hquiet

theorem runTask_of_ok {inputs : Inputs} {task : Task} {body : Body}
    (h : bodyOf inputs task = .ok body) (counterpart : Counterpart) (spec : Namespace.Spec)
    (c : Client) :
    let out := c.converse counterpart 0 context spec body
    let finished := runTask inputs counterpart spec c task
    finished.status = out.2.2.status ∧ ∃ shut, finished.effects = out.2.1 ++ shut ∧
      shut.filterMap Effect.wrote? = [] := by
  simp only [runTask, h]
  obtain ⟨d, effects, outcome⟩ := c.converse counterpart 0 context spec body
  obtain ⟨shut, hshut, hquiet⟩ := shutDown_effects d effects
  cases outcome with
  | refused why => exact ⟨rfl, shut, hshut, hquiet⟩
  | completed completion => cases completion <;> exact ⟨rfl, shut, hshut, hquiet⟩
  | unanswered => exact ⟨rfl, [], (List.append_nil _).symm, rfl⟩

theorem resolves_spec {a : Attempt} (h : a.namespaceAsked.Resolves) : (spec a).Resolves := by
  unfold spec
  split
  · exact Namespace.Spec.resolves_default
  · exact h

/-- A command that has a body makes its call. -/
theorem runTask_commands (connection : Connection) (config : Config) (stager : Stager)
    (scratch : Scratch) {inputs : Inputs} {task : Task} {body : Body}
    (h : bodyOf inputs task = .ok body) (counterpart : Counterpart) {spec : Namespace.Spec}
    (hspec : spec.Resolves) :
    let client := Client.new connection config stager scratch
    let a : Attempt := ⟨counterpart.id 0, counterpart.stem 0, context, spec, body, {}⟩
    ∃ steps came, Commands client a (counterpart.moves 0)
      (runTask inputs counterpart spec client task) steps came := by
  intro client a
  have hresolves : (Client.spec a).Resolves := resolves_spec hspec
  obtain ⟨hstatus, shut, hshut, hquiet⟩ := runTask_of_ok h counterpart spec client
  obtain ⟨houtcome, steps, hsteps⟩ :=
    converse_converses (c := client) ⟨rfl, rfl⟩ rfl counterpart 0 context spec body hresolves
  generalize client.converse counterpart 0 context spec body = out at hstatus hshut houtcome hsteps
  obtain ⟨result, hanswer⟩ := Option.isSome_iff_exists.1 hsteps.answered
  have htold : answerIn? a.id (runTask inputs counterpart spec client task).effects =
      answerIn? a.id out.2.1 := by
    rw [hshut, hanswer]
    exact answerIn?_append hanswer shut
  have htruth : TellsTruth client a ([] ++ .submit a :: steps) :=
    tellsTruth_run connection config stager scratch hresolves (by simp) hsteps.unasked
  have hcame : arrivals client.connection.outputClosed steps <+: said (counterpart.moves 0) ∧
      (client.connection.Live →
        arrivals client.connection.outputClosed steps = arrivals false steps) := by
    cases houtput : client.connection.outputClosed with
    | false => exact ⟨hsteps.arrivals_prefix, fun _ => rfl⟩
    | true =>
      rw [arrivals_closed]
      exact ⟨List.nil_prefix, fun hlive => by cases houtput.symm.trans hlive.output_open⟩
  refine ⟨steps, arrivals client.connection.outputClosed steps, hsteps.unasked, ?_, hcame.1, ?_,
    ?_, ?_, ?_⟩
  · rw [hsteps.effects_eq]
    exact ⟨shut, hshut, hquiet⟩
  · rw [htold]
    exact fun hok hlive => (hcame.2 hlive).trans (hsteps.arrivals_eq hok hlive)
  · rw [htold]
    exact hsteps.ends
  · rw [htold]
    exact hsteps.goes
  · rw [hshut, hstatus, houtcome]
    have hreported := htruth.truthful
    rw [List.nil_append, hsteps.effects_eq] at hreported
    refine (hreported.congr fun hok => ?_).append hsteps.answered hquiet
    have hsubmit : arrivals client.connection.outputClosed (.submit a :: steps) =
        arrivals client.connection.outputClosed steps := by
      cases client.connection.outputClosed with
      | false => rfl
      | true => rw [arrivals_closed, arrivals_closed]
    have hheard := hsteps.heard hok
    rw [stream, hsubmit] at hheard
    exact hheard.symm

/-- The exit status of a command that makes one call tells the truth. When what it is to send cannot
be had it fails, and nothing is written. Otherwise it makes its call and goes by the first response
to that in all that comes in; and so it is however its client's loop, the remote end and the
connection are interleaved with the call. -/
theorem exit_status_tells_the_truth (arguments : List String) (inv : Invocation)
    (hparse : parse arguments = .ok inv) (task : Task) (htask : inv.task = some task)
    (honce : task ≠ .repl) (connection : Connection) (config : Config) (stager : Stager)
    (scratch : Scratch) (inputs : Inputs) (counterpart : Counterpart) (history : Option Print) :
    let client := Client.new connection config stager scratch
    let finished := inv.run inputs counterpart client history
    (∀ report, bodyOf inputs task = .error report →
      finished.status = some 1 ∧ finished.effects.filterMap Effect.wrote? = []) ∧
    ∀ body, bodyOf inputs task = .ok body →
      (let a : Attempt := ⟨counterpart.id 0, counterpart.stem 0, context, inv.spec, body, {}⟩
        ∃ steps came, Commands client a (counterpart.moves 0) finished steps came) ∧
      ∀ id stem before after, (∀ s ∈ before, s.unasked = true) → (∀ s ∈ after, s.unasked = true) →
        let a : Attempt := ⟨id, stem, context, inv.spec, body, {}⟩
        TellsTruth client a (before ++ .submit a :: after) := by
  intro client finished
  have hfinished : finished = runTask inputs counterpart inv.spec client task := by
    cases task with
    | repl => exact absurd rfl honce
    | _ => simp only [finished, Invocation.run, htask]
  have hspec := resolves_of_parse hparse
  rw [hfinished]
  refine ⟨fun report hreport => runTask_of_error hreport counterpart inv.spec client, ?_⟩
  intro body hbody
  refine ⟨runTask_commands connection config stager scratch hbody counterpart hspec, ?_⟩
  intro id stem before after hbefore hafter a
  exact tellsTruth_run connection config stager scratch (resolves_spec hspec) hbefore hafter

/-- The response comes behind stray text and a response to another request. -/
theorem exit_status_tells_the_truth_behind_other_events :
    let client := Client.new { peer := "eval" } {} {}
    let inputs : Inputs := ⟨.ok "", .ok⟩
    let moves := [.say (Text.Utf8.encode "x (failure \"b\" \"\" ()) (success \"a\")".toList)]
    let counterpart : Counterpart := ⟨fun _ => "a", fun _ => "", fun _ => moves⟩
    let inv : Invocation := ⟨none, none, none, .default, false, some (.eval "1" false)⟩
    let finished := inv.run inputs counterpart client none
    parse ["eval", "1"] = .ok inv ∧ finished.status = some 0 ∧
      ∃ steps came, Commands client ⟨"a", "", context, .default, .auto "1", {}⟩ moves finished
        steps came := by
  intro client inputs moves counterpart inv finished
  have hparse : parse ["eval", "1"] = .ok inv := rfl
  have htruth := exit_status_tells_the_truth ["eval", "1"] inv hparse (.eval "1" false) rfl
    (by simp) { peer := "eval" } {} {} {} inputs counterpart none
  exact ⟨hparse, by decide +kernel, (htruth.2 (.auto "1") rfl).1⟩

end CommandLine

end RemoteEval
