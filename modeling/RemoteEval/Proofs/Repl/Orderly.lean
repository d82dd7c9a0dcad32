import RemoteEval.Proofs.Repl.Turns

/-!
What holds of the loop however it is interleaved with its client and the remote end. Its namespace
is the one that the entries set, and resolves; its calls are the entries that are code, in order;
for each of them one thing after another is done, and nothing for the next before the last is over;
and it ends where it cannot go on and nowhere else.
-/
namespace RemoteEval.Repl

open Client Text

def asks (a : Attempt) : String × Namespace.Spec × Body := (a.origin, a.namespaceAsked, a.body)

structure Heeds (spec : Namespace.Spec) (s : State) : Prop where
  resolves : s.spec.Resolves
  namespace_eq : s.spec = namespaceAfter spec s.entries
  calls_eq : s.calls.map asks =
    (sends spec s.entries).map fun sent => (context, sent.1, .auto (trimmed sent.2))
  prompts : .out "?> " ∉ s.prints

namespace Heeds

variable {spec : Namespace.Spec} {s : State}

theorem init (client : Client) (h : spec.Resolves) : Heeds spec (State.start client spec) where
  resolves := h
  namespace_eq := rfl
  calls_eq := rfl
  prompts := by
    intro hmem
    cases hmem

theorem say (h : Heeds spec s) {print : Print} (hprint : print ≠ .out "?> ") :
    Heeds spec (s.say print) where
  resolves := h.resolves
  namespace_eq := h.namespace_eq
  calls_eq := h.calls_eq
  prompts := by
    intro hmem
    rcases List.mem_append.1 hmem with hbefore | hlast
    · exact h.prompts hbefore
    · exact hprint (List.mem_singleton.1 hlast).symm

theorem saw (h : Heeds spec s) (out : Client × List Effect) : Heeds spec (s.saw out) where
  resolves := h.resolves
  namespace_eq := h.namespace_eq
  calls_eq := h.calls_eq
  prompts := by
    intro hmem
    rcases List.mem_append.1 hmem with hbefore | hlast
    · exact h.prompts hbefore
    · exact out_not_mem_printed _ _ hlast

theorem setPhase (h : Heeds spec s) (phase : Phase) : Heeds spec { s with phase } :=
  ⟨h.resolves, h.namespace_eq, h.calls_eq, h.prompts⟩

theorem prompts_given (h : Heeds spec s) (complaints : List String) (input : Input) :
    .out "?> " ∉ (s.given complaints input).prints := by
  intro hmem
  rcases List.mem_append.1 hmem with hbefore | hlast
  · exact h.prompts hbefore
  · rcases List.mem_cons.1 hlast with hprompt | hcomplaint
    · exact prompt_ne_fallback h.resolves (Print.out.inj hprompt).symm
    · obtain ⟨complaint, -, herr⟩ := List.mem_map.1 hcomplaint
      cases herr

/-- An input that is no entry sets no namespace and is not sent. -/
theorem given (h : Heeds spec s) (complaints : List String) {input : Input}
    (hinput : input.entry? = none) : Heeds spec (s.given complaints input) := by
  have hentries : (s.given complaints input).entries = s.entries := by
    rw [State.entries, State.given, List.filterMap_append, List.filterMap_cons, hinput]
    exact List.append_nil _
  refine ⟨h.resolves, ?_, ?_, h.prompts_given complaints input⟩
  · rw [hentries]
    exact h.namespace_eq
  · rw [hentries]
    exact h.calls_eq

/-- An entry sets the namespace that it names, if it names one, and is sent if it is code. -/
theorem entered (h : Heeds spec s) {entry : String} {t : State}
    (hinputs : t.inputs = s.inputs ++ [.entry entry]) (hprompts : .out "?> " ∉ t.prints)
    (hresolves : t.spec.Resolves) (hspec : t.spec = (switched? entry).getD s.spec)
    (hcalls : t.calls.map asks = s.calls.map asks ++
      if isCode entry then [(context, s.spec, .auto (trimmed entry))] else []) : Heeds spec t := by
  have hentries : t.entries = s.entries ++ [entry] := by
    rw [State.entries, hinputs, List.filterMap_append]
    rfl
  refine ⟨hresolves, ?_, ?_, hprompts⟩
  · rw [hentries, namespaceAfter_snoc, ← h.namespace_eq]
    exact hspec
  · rw [hentries, sends_snoc, hcalls, h.calls_eq, List.map_append, ← h.namespace_eq]
    cases isCode entry <;> rfl

theorem handle (h : Heeds spec s) (complaints : List String) (entry : String) (id : RequestId)
    (stem : String) : Heeds spec ((s.given complaints (.entry entry)).handle entry id stem) := by
  have hprompts := h.prompts_given complaints (.entry entry)
  have hquiet : isCode entry = false ∧ switched? entry = none →
      Heeds spec (s.given complaints (.entry entry)) := by
    rintro ⟨hcode, hswitched⟩
    refine h.entered rfl hprompts h.resolves ?_ ?_
    · rw [hswitched]
      rfl
    · rw [hcode]
      exact (List.append_nil _).symm
  unfold State.handle
  cases haction : action entry with
  | nothing => exact hquiet ((taken entry).nothing haction)
  | switch result =>
    obtain ⟨hcode, hswitched, -⟩ := (taken entry).command result haction
    cases result with
    | error why => exact (hquiet ⟨hcode, hswitched⟩).say (by simp)
    | ok next =>
      refine h.entered rfl hprompts (resolves_of_switch haction) ?_ ?_
      · rw [hswitched]
        rfl
      · rw [hcode]
        exact (List.append_nil _).symm
  | evaluate code =>
    obtain ⟨hcode, hswitched, rfl⟩ := (taken entry).code code haction
    let a : Attempt := ⟨id, stem, context, s.spec, .auto (trimmed entry), {}⟩
    have hcalled : Heeds spec { s.given complaints (.entry entry) with
        phase := .sending id, calls := s.calls ++ [a], seen := [] } := by
      refine h.entered rfl hprompts h.resolves ?_ ?_
      · rw [hswitched]
        rfl
      · rw [hcode]
        exact List.map_append
    exact hcalled.saw _

theorem read (h : Heeds spec s) (complaints : List String) (input : Input) (id : RequestId)
    (stem : String) : Heeds spec (s.read complaints input id stem) := by
  cases input with
  | ended => exact (h.given complaints rfl).setPhase .stopped
  | failed why =>
    refine ((h.given complaints rfl).setPhase .stopped).say ?_
    exact fun heq => readFailure_ne (by decide) why (Print.out.inj heq)
  | entry text => exact h.handle complaints text id stem

theorem look (h : Heeds spec s) : Heeds spec s.look := by
  unfold State.look
  split
  · next id _ =>
    cases answerIn? id s.seen with
    | none => exact h
    | some result =>
      cases result with
      | ok _ => exact h.setPhase (.waiting id)
      | error why => exact (h.setPhase .stopped).say (by simp)
  · next id _ =>
    cases completionIn? id s.seen with
    | none => exact h
    | some completion =>
      cases completion with
      | success => exact (h.setPhase .reading).say (by simp)
      | failure why => exact h.setPhase .reading
  · exact h

/-- Whatever happens, the namespace and the calls go with the entries. -/
theorem next (h : Heeds spec s) (event : Event) : Heeds spec (s.next event) := by
  cases event with
  | read complaints input id stem =>
    unfold State.next
    cases s.phase with
    | reading => exact h.read complaints input id stem
    | _ => exact h
  | look => exact h.look
  | take => exact h.saw _
  | receive => exact h.saw _
  | stop => exact h.saw _
  | connection change => exact h.saw _
  | erase path => exact h.saw _

end Heeds

/-- Over a run the loop goes on in its course. -/
theorem course_run {start : Client} {spec : Namespace.Spec} {s : State}
    {done : List (Attempt × Completion)} (hheeds : Heeds spec s) (hcourse : Course start s done)
    (events : List Event) :
    Heeds spec (s.run events) ∧ ∃ done, Course start (s.run events) done := by
  induction events generalizing s done with
  | nil => exact ⟨hheeds, done, hcourse⟩
  | cons event rest ih =>
    obtain ⟨_, hnext⟩ := hcourse.next hheeds.resolves event
    exact ih (hheeds.next event) hnext

def succeeds : Effect → Bool
  | .resolved _ .success => true
  | _ => false

/-- How often a ticket has been resolved with success and the loop is yet to look. -/
def State.unheard (s : State) : Nat :=
  match s.phase with
  | .sending _ => s.seen.countP succeeds
  | .waiting _ => s.seen.countP succeeds
  | _ => 0

theorem countP_marks (effects : List Effect) :
    (marks effects).countP succeeds = effects.countP succeeds := by
  rw [marks, List.countP_filterMap]
  congr 1
  funext effect
  cases effect <;> rfl

theorem countP_exchanges (start : Client) (done : List (Attempt × Completion)) :
    (done.flatMap (exchange start)).countP succeeds = done.countP fun e => e.2 == .success := by
  induction done with
  | nil => rfl
  | cons e rest ih =>
    rw [List.flatMap_cons, List.countP_append, ih, List.countP_cons, Nat.add_comm]
    congr 1
    obtain ⟨a, completion⟩ := e
    cases completion <;> rfl

theorem not_mem_exchanges {start : Client} {done : List (Attempt × Completion)} {id : RequestId}
    {why : Error} : .answered id (.error why) ∉ done.flatMap (exchange start) := by
  intro hmem
  obtain ⟨e, -, he⟩ := List.mem_flatMap.1 hmem
  simp [exchange] at he

/-- A client that nobody calls and that has nothing to do prints nothing. -/
theorem printed_of_idle {c : Client} (hidle : c.Idle) {step : Step}
    (hunasked : step.unasked = true) : (c.step step).2.filterMap Effect.printed = [] := by
  obtain ⟨-, -, hshown⟩ := (c.step_change step).idle hidle hunasked
  have hprinted : ∀ effect : Effect, effect.ofRequest = false → effect.printed = none := by
    intro effect heffect
    cases effect with
    | editor call =>
      cases call with
      | flash origin start stop => rfl
      | _ => cases heffect
    | _ => rfl
  rw [← filterMap_aboutRequests hprinted, aboutRequests_step, hshown]
  rfl

namespace Course

variable {start : Client} {s : State} {done : List (Attempt × Completion)}

/-- A call that has returned with an error is the last one. -/
theorem of_refused (h : Course start s done) {id : RequestId} {why : Error}
    (hmem : .answered id (.error why) ∈ s.effects) :
    (why = .connectionClosed ∨ ∃ fault, why = .staging fault) ∧
      (s.phase = .sending id ∧ answerIn? id s.seen = some (.error why) ∨ s.phase = .stopped) := by
  have hmark := answered_mem_marks.2 hmem
  cases h.stand with
  | between hidle hcalls hmarks hphase =>
    rw [hmarks] at hmark
    exact absurd hmark not_mem_exchanges
  | amid a hcalls hmarks hstage hinputs hphase =>
    rw [hmarks] at hmark
    have hseen := (List.mem_append.1 hmark).resolve_left not_mem_exchanges
    have hwhy : id = a.id ∧ answerIn? a.id s.seen = some (.error why) ∧
        (why = .connectionClosed ∨ ∃ fault, why = .staging fault) := by
      rw [← answerIn?_marks]
      generalize marks s.seen = shown at hstage hseen
      cases hstage with
      | queued request inflight hchecked hqueue htable => cases hseen
      | refused other hother hidle =>
        cases List.mem_singleton.1 hseen
        exact ⟨rfl, by simp [answerIn?], hother⟩
      | broken written hfront hidle =>
        have hsame : id = a.id ∧ why = .connectionClosed := by simpa using hseen
        obtain ⟨rfl, rfl⟩ := hsame
        exact ⟨rfl, by simp [answerIn?], .inl rfl⟩
      | tracked entry hchecked hqueue htable => simp at hseen
      | ended entry completion hchecked hidle => simp at hseen
    obtain ⟨rfl, hanswer, hcause⟩ := hwhy
    refine ⟨hcause, ?_⟩
    rcases hphase with hsending | ⟨-, hother⟩ | ⟨hstopped, -⟩
    · exact .inl ⟨hsending, hanswer⟩
    · cases hanswer.symm.trans hother
    · exact .inr hstopped

/-- When the loop has ended its client is idle, and no ticket has been resolved unheard. -/
theorem of_stopped (h : Course start s done) (hstopped : s.phase = .stopped) :
    s.client.Idle ∧ s.effects.countP succeeds = done.countP (fun e => e.2 == .success) ∧
      ((∃ input ∈ s.inputs, input.entry? = none) ∨
        ∃ id why, .answered id (.error why) ∈ s.effects) := by
  rw [← countP_marks]
  cases h.stand with
  | between hidle hcalls hmarks hphase =>
    rcases hphase with ⟨hreading, -⟩ | ⟨-, hinput⟩
    · cases hstopped.symm.trans hreading
    · rw [hmarks]
      exact ⟨hidle, countP_exchanges start done, .inl hinput⟩
  | amid a hcalls hmarks hstage hinputs hphase =>
    rcases hphase with hsending | ⟨hwaiting, -⟩ | ⟨-, why, hanswer⟩
    · cases hstopped.symm.trans hsending
    · cases hstopped.symm.trans hwaiting
    · have hrefused : s.client.Idle ∧ (marks s.seen).countP succeeds = 0 ∧
          .answered a.id (.error why) ∈ marks s.seen := by
        rw [← answerIn?_marks] at hanswer
        generalize marks s.seen = shown at hstage hanswer
        cases hstage with
        | queued request inflight hchecked hqueue htable => simp [answerIn?] at hanswer
        | refused other hother hidle =>
          have hsame : other = why := by simpa [answerIn?] using hanswer
          subst hsame
          exact ⟨hidle, rfl, List.mem_singleton_self _⟩
        | broken written hfront hidle =>
          have hsame : Error.connectionClosed = why := by simpa [answerIn?] using hanswer
          subst hsame
          exact ⟨hidle, rfl, by simp⟩
        | tracked entry hchecked hqueue htable => simp [answerIn?] at hanswer
        | ended entry completion hchecked hidle => simp [answerIn?] at hanswer
      obtain ⟨hidle, hnone, hmem⟩ := hrefused
      refine ⟨hidle, ?_, .inr ⟨a.id, why, ?_⟩⟩
      · rw [hmarks, List.countP_append, countP_exchanges, hnone, Nat.add_zero]
      · rw [← answered_mem_marks, hmarks]
        exact List.mem_append_right _ hmem

theorem outstanding (h : Course start s done) :
    s.client.table.size + s.client.queue.length ≤ 1 := by
  cases h.stand with
  | between hidle hcalls hmarks hphase =>
    rw [Table.size, hidle.queue_nil, hidle.table_nil]
    exact Nat.zero_le 1
  | amid a hcalls hmarks hstage hinputs hphase => exact hstage.length_le_one

theorem succeeded (h : Course start s done) :
    s.effects.countP succeeds = s.prints.count (.out "ok\n") + s.unheard := by
  have hbusy : ∀ {id : RequestId}, s.phase = .sending id ∨ s.phase = .waiting id →
      s.effects.countP succeeds = s.prints.count (.out "ok\n") + s.seen.countP succeeds := by
    intro id hphase
    obtain ⟨a, -, -, hmarks, -⟩ := h.of_busy hphase
    rw [← countP_marks, hmarks, List.countP_append, countP_exchanges, countP_marks, h.oks]
  rw [State.unheard]
  cases hphase : s.phase with
  | sending id => exact hbusy (.inl hphase)
  | waiting id => exact hbusy (.inr hphase)
  | reading =>
    obtain ⟨-, -, hmarks, -⟩ := h.of_reading hphase
    rw [← countP_marks, hmarks, countP_exchanges, h.oks]
    rfl
  | stopped =>
    obtain ⟨-, hcount, -⟩ := h.of_stopped hphase
    rw [hcount, h.oks]
    rfl

theorem stopped_of_input (h : Course start s done) {input : Input} (hmem : input ∈ s.inputs)
    (hinput : input.entry? = none) : s.phase = .stopped := by
  have hsome : ¬ input.entry?.isSome := by simp [hinput]
  cases h.stand with
  | between hidle hcalls hmarks hphase =>
    rcases hphase with ⟨-, hinputs⟩ | ⟨hstopped, -⟩
    · exact absurd (hinputs input hmem) hsome
    · exact hstopped
  | amid a hcalls hmarks hstage hinputs hphase => exact absurd (hinputs input hmem) hsome

theorem look_of_refused (h : Course start s done) {id : RequestId} {why : Error}
    (hmem : .answered id (.error why) ∈ s.effects) : s.look.phase = .stopped := by
  obtain ⟨-, ⟨hsending, hanswer⟩ | hstopped⟩ := h.of_refused hmem
  · rw [State.look_sending hsending, hanswer]
    rfl
  · simp only [State.look, hstopped]

end Course

structure Unmoved (s t : State) : Prop where
  phase_eq : t.phase = s.phase
  spec_eq : t.spec = s.spec
  inputs_eq : t.inputs = s.inputs
  calls_eq : t.calls = s.calls
  prints_eq : t.prints = s.prints

/-- Once the loop has ended it reads, sends and prints nothing more. -/
theorem Course.stopped_next {start : Client} {s : State} {done : List (Attempt × Completion)}
    (h : Course start s done) (hstopped : s.phase = .stopped) (event : Event) :
    Unmoved s (s.next event) := by
  obtain ⟨hidle, -, -⟩ := h.of_stopped hstopped
  have hstep : ∀ {step : Step}, step.unasked = true → Unmoved s (s.saw (s.client.step step)) := by
    intro step hunasked
    refine ⟨rfl, rfl, rfl, rfl, ?_⟩
    rw [State.saw, printed_of_idle hidle hunasked, List.append_nil]
  cases event with
  | read complaints input id stem =>
    simp only [State.next, hstopped]
    exact ⟨rfl, rfl, rfl, rfl, rfl⟩
  | look =>
    simp only [State.next, State.look, hstopped]
    exact ⟨rfl, rfl, rfl, rfl, rfl⟩
  | take => exact hstep rfl
  | receive => exact hstep rfl
  | stop => exact hstep rfl
  | connection change => exact ⟨rfl, rfl, rfl, rfl, List.append_nil _⟩
  | erase path => exact hstep rfl

/-- How a call goes through the connection: its line is the request for its text in its namespace,
or for the file that the text is staged in. -/
structure Carried (start : Client) (a : Attempt) (entry : Request × Inflight) : Prop where
  frame_eq : start.frame a = entry.1.wire
  id_eq : entry.1.id = a.id
  resolves : a.namespaceAsked.resolve = .ok entry.1.path
  route : start.Route a entry.1 entry.2.staged

theorem carried_of_checked {start : Client} {a : Attempt} {code : String}
    (hbody : a.body = .auto code) {entry : Request × Inflight}
    (hchecked : start.checked a = .ok entry) : Carried start a entry := by
  obtain ⟨request, inflight⟩ := entry
  obtain ⟨hresolves, hroute⟩ := checked_route hchecked
  have hspec : Client.spec a = a.namespaceAsked := by rw [Client.spec, hbody]
  exact ⟨frame_of_checked hchecked, checked_id hchecked, hspec ▸ hresolves, hroute⟩

structure Orderly (start : Client) (spec : Namespace.Spec) (s : State) : Prop
    extends Heeds spec s where
  /-- Each call but the last has been written, has returned, and has had its ticket resolved before
  the next was made; and `ok` has been printed for those whose ticket was resolved so. -/
  course : ∃ done, Course start s done
  carried : ∀ a ∈ s.calls, ∀ entry, start.checked a = .ok entry → Carried start a entry
  well_formed : ∀ id why, .answered id (.error (.malformedNamespace why)) ∉ s.effects
  outstanding : s.client.table.size + s.client.queue.length ≤ 1
  oks : s.effects.countP succeeds = s.prints.count (.out "ok\n") + s.unheard
  stops_at_input : ∀ input ∈ s.inputs, input.entry? = none → s.phase = .stopped
  stops_at_error : ∀ id why, .answered id (.error why) ∈ s.effects → s.look.phase = .stopped
  stops_for : s.phase = .stopped → (∃ input ∈ s.inputs, input.entry? = none) ∨
    ∃ id why, .answered id (.error why) ∈ s.effects
  stays_stopped : s.phase = .stopped → ∀ event, Unmoved s (s.next event)

theorem orderly {start : Client} {spec : Namespace.Spec} {s : State}
    {done : List (Attempt × Completion)} (hheeds : Heeds spec s) (hcourse : Course start s done) :
    Orderly start spec s where
  toHeeds := hheeds
  course := ⟨done, hcourse⟩
  carried := by
    intro a ha entry hchecked
    have hasks : asks a ∈ s.calls.map asks := List.mem_map_of_mem ha
    rw [hheeds.calls_eq] at hasks
    obtain ⟨sent, -, hsent⟩ := List.mem_map.1 hasks
    have hbody := congrArg (fun asked => asked.2.2) hsent.symm
    exact carried_of_checked hbody hchecked
  well_formed := by
    intro id why hmem
    obtain ⟨hclosed | ⟨fault, hstaging⟩, -⟩ := hcourse.of_refused hmem
    · cases hclosed
    · cases hstaging
  outstanding := hcourse.outstanding
  oks := hcourse.succeeded
  stops_at_input := fun input hmem hinput => hcourse.stopped_of_input hmem hinput
  stops_at_error := fun id why hmem => hcourse.look_of_refused hmem
  stops_for := fun hstopped => (hcourse.of_stopped hstopped).2.2
  stays_stopped := fun hstopped event => hcourse.stopped_next hstopped event

end RemoteEval.Repl
