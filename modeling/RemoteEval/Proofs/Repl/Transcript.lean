import RemoteEval.Proofs.Client.Settling
import RemoteEval.Proofs.Repl.Orderly

/-!
The transcript of a loop whose client does all that it can before the loop looks. It is one way
for the two to be interleaved, so what holds of every interleaving holds of it.
-/
namespace RemoteEval.Repl

open Client

def GoesOn (s t : State) : Prop :=
  ∃ events, (∀ event ∈ events, event.aside = true) ∧ s.run events = t

namespace State

theorem run_append (s : State) (first second : List Event) :
    s.run (first ++ second) = (s.run first).run second :=
  List.foldl_append

theorem saw_nothing (s : State) : s.saw (s.client, []) = s := by
  simp [saw]

theorem saw_saw (s : State) (first second : Client × List Effect) :
    (s.saw first).saw second = s.saw (second.1, first.2 ++ second.2) := by
  simp [saw]

theorem saw_andThen (s : State) (first : Client × List Effect)
    (second : Client → Client × List Effect) :
    s.saw (andThen first second) = (s.saw first).saw (second first.1) :=
  (s.saw_saw first (second first.1)).symm

end State

namespace GoesOn

variable {s t u : State}

theorem refl (s : State) : GoesOn s s := ⟨[], by simp, rfl⟩

theorem trans (hfirst : GoesOn s t) (hsecond : GoesOn t u) : GoesOn s u := by
  obtain ⟨first, hasideFirst, rfl⟩ := hfirst
  obtain ⟨second, hasideSecond, rfl⟩ := hsecond
  refine ⟨first ++ second, ?_, s.run_append first second⟩
  intro event hevent
  exact (List.mem_append.1 hevent).elim (hasideFirst event) (hasideSecond event)

theorem one (s : State) (event : Event) (haside : event.aside = true) : GoesOn s (s.next event) :=
  ⟨[event], by simpa using haside, rfl⟩

theorem take (s : State) : GoesOn s (s.saw s.client.take) := one s .take rfl

theorem receive (s : State) : GoesOn s (s.saw s.client.receive) := one s .receive rfl

theorem takeAll (s : State) : GoesOn s (s.saw s.client.takeAll) := by
  have htakes : ∀ (commands : List Command) (s : State),
      GoesOn s (s.saw (s.client.run (commands.map fun _ => .take))) := by
    intro commands
    induction commands with
    | nil =>
      intro s
      rw [List.map_nil, Client.run, s.saw_nothing]
      exact refl s
    | cons command rest ih =>
      intro s
      rw [List.map_cons, Client.run, State.saw_andThen]
      exact (take s).trans (ih _)
  exact htakes s.client.queue s

theorem receiveUpTo (n : Nat) (s : State) : GoesOn s (s.saw (Client.receiveUpTo n s.client)) := by
  induction n generalizing s with
  | zero =>
    rw [Client.receiveUpTo, s.saw_nothing]
    exact refl s
  | succ n ih =>
    unfold Client.receiveUpTo
    split
    · rw [s.saw_nothing]
      exact refl s
    · split
      · exact receive s
      · rw [State.saw_andThen]
        exact (receive s).trans (ih _)

theorem settle (s : State) : GoesOn s (s.saw s.client.settle) := by
  rw [Client.settle, State.saw_andThen]
  exact (takeAll s).trans (receiveUpTo _ _)

theorem hear (s : State) (move : Move) : GoesOn s (s.saw (s.client.hear move)) := by
  have hchange : ∀ change : Connection → Connection,
      GoesOn s (s.saw
        ({ s.client with connection := change s.client.connection } : Client).settle) := by
    intro change
    have hsettle := (one s (.connection change) rfl).trans (settle _)
    rw [State.next, State.saw_saw] at hsettle
    exact hsettle
  cases move with
  | say bytes => exact hchange fun connection => connection.deliver bytes
  | hangUp => exact hchange fun connection => connection.dropRemote

theorem hearAll (s : State) (moves : List Move) : GoesOn s (s.saw (s.client.hearAll moves)) := by
  induction moves generalizing s with
  | nil =>
    rw [Client.hearAll, s.saw_nothing]
    exact refl s
  | cons move rest ih =>
    rw [Client.hearAll, State.saw_andThen]
    exact (hear s move).trans (ih _)

/-- While the loop waits it goes on in its course. -/
theorem course (h : GoesOn s t) {start : Client} {done : List (Attempt × Completion)}
    (hcourse : Course start s done) : Course start t done := by
  obtain ⟨events, haside, rfl⟩ := h
  induction events generalizing s with
  | nil => exact hcourse
  | cons event rest ih =>
    rw [List.forall_mem_cons] at haside
    exact ih (hcourse.aside haside.1) haside.2

end GoesOn

def State.called (s : State) (a : Attempt) (out : Client × List Effect) : State :=
  { s with phase := .sending a.id, calls := s.calls ++ [a], seen := [] }.saw out

def State.learned (s : State) (id : RequestId) : Outcome → State
  | .refused why => s.returns id (.error why)
  | .completed completion => (s.returns id (.ok ())).resolves completion
  | .unanswered => s.returns id (.ok ())

/-- The loop makes a call and its client does all that it can; then the call has returned. -/
theorem goesOn_called {start : Client} {s : State} {done : List (Attempt × Completion)}
    (h : Course start s done) (hreading : s.phase = .reading) (hresolves : s.spec.Resolves)
    (code : String) (id : RequestId) (stem : String) :
    let a : Attempt := ⟨id, stem, context, s.spec, .auto code, {}⟩
    let sent := andThen (s.client.submit a) settle
    GoesOn (s.send code id stem) (s.called a sent) ∧ (answerIn? id sent.2).isSome := by
  intro a sent
  have hsent : GoesOn (s.send code id stem) (s.called a sent) := by
    have hsettle := GoesOn.settle (s.send code id stem)
    rw [State.called, State.saw_andThen]
    exact hsettle
  have hsending : (s.called a sent).phase = .sending id := rfl
  have hcourse := hsent.course (h.send hreading hresolves code id stem)
  obtain ⟨b, rfl, -, -, hstage, -, -⟩ := hcourse.of_busy (.inl hsending)
  exact ⟨hsent, hstage.answered (settle_queue _)⟩

theorem run_look (s : State) : s.run [.look] = s.look := rfl

/-- What a dialogue comes to, the loop and its client can come to. -/
theorem run_converse {start : Client} {s : State} {done : List (Attempt × Completion)}
    (h : Course start s done) (hreading : s.phase = .reading) (hresolves : s.spec.Resolves)
    (counterpart : Counterpart) (n : Nat) (code : String) :
    let a : Attempt :=
      ⟨counterpart.id n, counterpart.stem n, context, s.spec, .auto code, {}⟩
    let out := s.client.converse counterpart n context s.spec (.auto code)
    ∃ events, (s.send code a.id a.stem).run events =
      (s.called a (out.1, out.2.1)).learned a.id out.2.2 := by
  intro a out
  let sent := andThen (s.client.submit a) settle
  have hcalled : GoesOn (s.send code a.id a.stem) (s.called a sent) ∧
      (answerIn? a.id sent.2).isSome := goesOn_called h hreading hresolves code a.id a.stem
  obtain ⟨⟨before, -, hbefore⟩, hanswered⟩ := hcalled
  obtain ⟨result, hanswer⟩ := Option.isSome_iff_exists.1 hanswered
  have hlook : (s.called a sent).look = (s.called a sent).returns a.id result := by
    have hseen : (s.called a sent).seen = sent.2 := rfl
    rw [State.look_sending rfl, hseen, hanswer]
    rfl
  cases result with
  | error why =>
    have hout : out = (sent.1, sent.2, .refused why) :=
      s.client.converse_of_error counterpart n context s.spec (.auto code) hanswer
    refine ⟨before ++ [.look], ?_⟩
    rw [State.run_append, hbefore, run_look, hout]
    exact hlook
  | ok _ =>
    let heard := sent.1.hearAll (counterpart.moves n)
    let waits := (s.called a (heard.1, sent.2 ++ heard.2)).returns a.id (.ok ())
    have hout : out = (heard.1, sent.2 ++ heard.2,
        (completionIn? a.id (sent.2 ++ heard.2)).elim .unanswered .completed) :=
      s.client.converse_of_ok counterpart n context s.spec (.auto code) hanswer
    -- The loop looks, the remote end makes its moves, and the loop looks again.
    have hheard := GoesOn.hearAll ((s.called a sent).returns a.id (.ok ())) (counterpart.moves n)
    have hwaits : ((s.called a sent).returns a.id (.ok ())).saw heard = waits := by
      simp [waits, State.called, State.returns, State.saw]
    have hagain : waits.look =
        (completionIn? a.id (sent.2 ++ heard.2)).elim waits waits.resolves :=
      State.look_waiting rfl
    obtain ⟨after, -, hafter⟩ := hheard
    refine ⟨before ++ ([.look] ++ (after ++ [.look])), ?_⟩
    rw [State.run_append, hbefore, State.run_append, run_look, hlook, State.run_append, hafter,
      run_look]
    change (((s.called a sent).returns a.id (.ok ())).saw heard).look = _
    rw [hwaits, hagain, hout]
    cases completionIn? a.id (sent.2 ++ heard.2) <;> rfl

def inputsOf (lines : List (Except String (List Char))) : List Input :=
  match _hentry : (readEntry [] lines).input with
  | .entry entry => .entry entry :: inputsOf (readEntry [] lines).rest
  | input => [input]
termination_by lines.length
decreasing_by exact readEntry_rest_lt _hentry

theorem inputsOf_of_entry {lines : List (Except String (List Char))} {entry : String}
    (h : (readEntry [] lines).input = .entry entry) :
    inputsOf lines = .entry entry :: inputsOf (readEntry [] lines).rest := by
  rw [inputsOf]
  split
  · next found hfound =>
    rw [h] at hfound
    cases hfound
    rfl
  · next hother => exact absurd h (hother entry)

theorem prefix_inputsOf (lines : List (Except String (List Char))) :
    [(readEntry [] lines).input] <+: inputsOf lines := by
  rw [inputsOf]
  split
  · next entry hentry =>
    rw [hentry]
    exact ⟨_, rfl⟩
  · exact List.prefix_refl _

/-- Between two states the loop has done what a transcript says, on inputs from these lines. -/
structure Shows (s t : State) (transcript : Transcript)
    (lines : List (Except String (List Char))) : Prop where
  client_eq : t.client = transcript.client
  effects_eq : t.effects = s.effects ++ transcript.effects
  prints_eq : t.prints = s.prints ++ transcript.prints
  inputs : ∃ inputs, t.inputs = s.inputs ++ inputs ∧ inputs <+: inputsOf lines
  phase : t.phase = .stopped ∨ ∃ id, t.phase = .waiting id

/-- What is done on the first input, and then on the others. -/
theorem Shows.after {s t u : State} {transcript : Transcript}
    {lines : List (Except String (List Char))} {entry : String}
    (hentry : (readEntry [] lines).input = .entry entry)
    (h : Shows t u transcript (readEntry [] lines).rest) {effects : List Effect}
    {prints : List Print} (heffects : t.effects = s.effects ++ effects)
    (hprints : t.prints = s.prints ++ prints) (hinputs : t.inputs = s.inputs ++ [.entry entry]) :
    Shows s u (transcript.after effects prints) lines where
  client_eq := h.client_eq
  effects_eq := by
    rw [h.effects_eq, heffects, List.append_assoc]
    rfl
  prints_eq := by
    rw [h.prints_eq, hprints, List.append_assoc]
    rfl
  inputs := by
    obtain ⟨inputs, heq, hprefix⟩ := h.inputs
    refine ⟨.entry entry :: inputs, ?_, ?_⟩
    · rw [heq, hinputs, List.append_assoc]
      rfl
    · rw [inputsOf_of_entry hentry]
      exact (List.prefix_cons_inj _).2 hprefix
  phase := h.phase

theorem State.run_read {s : State} (hreading : s.phase = .reading) (complaints : List String)
    (input : Input) (id : RequestId) (stem : String) :
    ∃ event, s.run [event] = s.read complaints input id stem := by
  refine ⟨.read complaints input id stem, ?_⟩
  change s.next (.read complaints input id stem) = _
  simp only [State.next, hreading]

/-- What comes of an entry: the loop and its client do what a transcript says, and then the loop goes
on with `next` or does not go on. -/
inductive Enters (s : State) (entry : String) (next : Client → Namespace.Spec → Nat → Transcript)
    (transcript : Transcript) : Prop where
  | on (events : List Event) (t : State) (hrun : s.run events = t) (n : Nat)
      (effects : List Effect) (prints : List Print) (hphase : t.phase = .reading)
      (heffects : t.effects = s.effects ++ effects) (hprints : t.prints = s.prints ++ prints)
      (hinputs : t.inputs = s.inputs ++ [.entry entry])
      (htranscript : transcript = (next t.client t.spec n).after effects prints)
  | last (events : List Event) (t : State) (hrun : s.run events = t)
      (hclient : t.client = transcript.client)
      (heffects : t.effects = s.effects ++ transcript.effects)
      (hprints : t.prints = s.prints ++ transcript.prints)
      (hinputs : t.inputs = s.inputs ++ [.entry entry])
      (hphase : t.phase = .stopped ∨ ∃ id, t.phase = .waiting id)

section Entering

variable {start : Client} {s : State} {done : List (Attempt × Completion)} {entry : String}
  (counterpart : Counterpart) (n : Nat) (complaints : List String)
  (next : Client → Namespace.Spec → Nat → Transcript)

/-- A blank entry changes nothing. -/
theorem enters_nothing (hreading : s.phase = .reading) (haction : action entry = .nothing) :
    Enters s entry next (enter counterpart s.client s.spec n entry
      (.out (prompt s.spec) :: complaints.map .err) next) := by
  obtain ⟨event, hread⟩ := State.run_read hreading complaints (.entry entry) (counterpart.id n)
    (counterpart.stem n)
  simp only [State.read, State.handle, haction] at hread
  simp only [enter, haction]
  exact .on [event] _ hread n [] _ hreading (List.append_nil _).symm rfl rfl rfl

/-- A command changes no more than the namespace. -/
theorem enters_switch (hreading : s.phase = .reading)
    {result : Except Namespace.Malformed Namespace.Spec} (haction : action entry = .switch result) :
    Enters s entry next (enter counterpart s.client s.spec n entry
      (.out (prompt s.spec) :: complaints.map .err) next) := by
  obtain ⟨event, hread⟩ := State.run_read hreading complaints (.entry entry) (counterpart.id n)
    (counterpart.stem n)
  cases result with
  | ok spec =>
    simp only [State.read, State.handle, haction] at hread
    simp only [enter, haction]
    exact .on [event] _ hread n [] _ hreading (List.append_nil _).symm rfl rfl rfl
  | error why =>
    simp only [State.read, State.handle, haction] at hread
    simp only [enter, haction]
    exact .on [event] _ hread n [] _ hreading (List.append_nil _).symm (List.append_assoc _ _ _)
      rfl rfl

/-- Code is sent, and the loop reads on if its request ends. -/
theorem enters_evaluate (hresolves : s.spec.Resolves) (hcourse : Course start s done)
    (hreading : s.phase = .reading) {code : String} (haction : action entry = .evaluate code) :
    Enters s entry next (enter counterpart s.client s.spec n entry
      (.out (prompt s.spec) :: complaints.map .err) next) := by
  obtain ⟨event, hread⟩ := State.run_read hreading complaints (.entry entry) (counterpart.id n)
    (counterpart.stem n)
  simp only [State.read, State.handle, haction] at hread
  obtain ⟨events, hconverse⟩ := run_converse (hcourse.given complaints entry) hreading hresolves
    counterpart n code
  rw [← hread, ← State.run_append] at hconverse
  simp only [State.given] at hconverse
  have hprints : ∀ shown printed more : List Print,
      s.prints ++ shown ++ printed ++ more = s.prints ++ (shown ++ printed ++ more) := by
    intro shown printed more
    simp only [List.append_assoc]
  simp only [enter, haction]
  generalize s.client.converse counterpart n context s.spec (.auto code) = out at hconverse ⊢
  obtain ⟨client, effects, outcome⟩ := out
  cases outcome with
  | refused why => exact .last _ _ hconverse rfl rfl (hprints _ _ _) rfl (.inl rfl)
  | unanswered =>
    exact .last _ _ hconverse rfl rfl (List.append_assoc _ _ _) rfl (.inr ⟨_, rfl⟩)
  | completed completion =>
    cases completion with
    | success => exact .on _ _ hconverse (n + 1) effects _ rfl rfl (hprints _ _ _) rfl rfl
    | failure why =>
      exact .on _ _ hconverse (n + 1) effects _ rfl rfl (List.append_assoc _ _ _) rfl rfl

theorem enters (hresolves : s.spec.Resolves) (hcourse : Course start s done)
    (hreading : s.phase = .reading) (entry : String) :
    Enters s entry next (enter counterpart s.client s.spec n entry
      (.out (prompt s.spec) :: complaints.map .err) next) := by
  cases haction : action entry with
  | nothing => exact enters_nothing counterpart n complaints next hreading haction
  | switch result => exact enters_switch counterpart n complaints next hreading haction
  | evaluate code =>
    exact enters_evaluate counterpart n complaints next hresolves hcourse hreading haction

end Entering

/-- What the loop does on lines, it and its client can come to. -/
theorem run_shows {start : Client} {spec : Namespace.Spec} (counterpart : Counterpart) {s : State}
    {done : List (Attempt × Completion)} (hheeds : Heeds spec s) (hcourse : Course start s done)
    (hreading : s.phase = .reading) (n : Nat) (lines : List (Except String (List Char))) :
    ∃ events, Shows s (s.run events) (Repl.run counterpart s.client s.spec n lines) lines := by
  induction hlength : lines.length using Nat.strong_induction_on
    generalizing s done n lines with
  | _ length ih =>
    subst hlength
    have hfirst := prefix_inputsOf lines
    obtain ⟨event, hread⟩ := State.run_read hreading (readEntry [] lines).complaints
      (readEntry [] lines).input (counterpart.id n) (counterpart.stem n)
    rw [Repl.run]
    split
    · next hended =>
      rw [hended] at hread hfirst
      refine ⟨[event], ?_⟩
      rw [hread]
      exact ⟨rfl, (List.append_nil _).symm, rfl, ⟨_, rfl, hfirst⟩, .inl rfl⟩
    · next why hfailed =>
      rw [hfailed] at hread hfirst
      refine ⟨[event], ?_⟩
      rw [hread]
      exact ⟨rfl, (List.append_nil _).symm, List.append_assoc _ _ _, ⟨_, rfl, hfirst⟩, .inl rfl⟩
    · next entry hentry =>
      rw [hentry] at hfirst
      cases enters counterpart n (readEntry [] lines).complaints _ hheeds.resolves hcourse hreading
        entry with
      | last events t hrun hclient heffects hprints hinputs hphase =>
        refine ⟨events, ?_⟩
        rw [hrun]
        exact ⟨hclient, heffects, hprints, ⟨_, hinputs, hfirst⟩, hphase⟩
      | on events t hrun m effects prints hphase heffects hprints hinputs htranscript =>
        -- Behind the entry fewer lines are left.
        obtain ⟨hheedsThen, _, hcourseThen⟩ := course_run hheeds hcourse events
        rw [hrun] at hheedsThen hcourseThen
        obtain ⟨more, hshows⟩ := ih _ (readEntry_rest_lt hentry) hheedsThen hcourseThen hphase m
          (readEntry [] lines).rest rfl
        refine ⟨events ++ more, ?_⟩
        rw [State.run_append, hrun, htranscript]
        exact hshows.after hentry heffects hprints hinputs

/-- Whatever the remote end does, in whatever order the loop and its client go on, and whatever
arguments the namespace at the start comes from: the namespace resolves, entries are sent one after
another as they come, each in the namespace that the last command before it has set, and the loop
ends where it cannot go on. So it is with the loop on any lines of input. -/
theorem loop_sends_one_entry_at_a_time (arguments : List String) (inv : CommandLine.Invocation)
    (hparse : CommandLine.parse arguments = .ok inv) (connection : Connection) (config : Config)
    (stager : Stager) (scratch : Scratch) :
    let client := Client.new connection config stager scratch
    let start := State.start client inv.spec
    (∀ entry, Taken entry ∧ Sorted entry) ∧
      (∀ events, Orderly client inv.spec (start.run events)) ∧
      ∀ counterpart n lines, ∃ events,
        Shows start (start.run events) (Repl.run counterpart client inv.spec n lines) lines := by
  intro client start
  have hheeds := Heeds.init client (CommandLine.resolves_of_parse hparse)
  have hcourse := Course.init client inv.spec ⟨rfl, rfl⟩
  refine ⟨fun entry => ⟨taken entry, sorted entry⟩, ?_, ?_⟩
  · intro events
    obtain ⟨hheedsRun, done, hcourseRun⟩ := course_run hheeds hcourse events
    exact orderly hheedsRun hcourseRun
  · intro counterpart n lines
    exact run_shows counterpart hheeds hcourse rfl n lines

/-- The loop in a namespace that is asked for on the command line. -/
theorem loop_sends_one_entry_at_a_time_in_submodule :
    ∃ inv, CommandLine.parse ["-n", "Foo.Bar"] = .ok inv ∧ inv.spec = .list ["Foo", "Bar"] ∧
      let client := Client.new { peer := "repl" } {} {}
      let start := State.start client inv.spec
      (∀ entry, Taken entry ∧ Sorted entry) ∧
        (∀ events, Orderly client inv.spec (start.run events)) ∧
        ∀ counterpart n lines, ∃ events,
          Shows start (start.run events) (Repl.run counterpart client inv.spec n lines) lines :=
  ⟨_, rfl, rfl, loop_sends_one_entry_at_a_time ["-n", "Foo.Bar"] _ rfl { peer := "repl" } {} {} {}⟩

end RemoteEval.Repl
