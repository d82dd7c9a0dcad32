import RemoteEval.Proofs.Repl.Transcript

/-!
Which entries reach the interpreter. Code is written once, in the order of the entries, as long as
no call fails; a call that fails is the last.
-/
namespace RemoteEval.Repl

open Client Text

def State.lines (s : State) : List (List UInt8) := s.effects.filterMap Effect.wrote?

/-- These lines are those of the calls, one for each, and carry what the calls are about. -/
structure LinesOf (start : Client) (calls : List Attempt) (lines : List (List UInt8)) : Prop where
  lines_eq : lines = calls.map start.frame
  carried : ∀ a ∈ calls, ∃ entry, start.checked a = .ok entry ∧ Carried start a entry

/-- How far the calls of the loop have come to the connection. -/
inductive Reached (start : Client) (s : State) : Prop where
  | all (hwritten : LinesOf start s.calls s.lines)
  | underway (before : List Attempt) (a : Attempt) (hcalls : s.calls = before ++ [a])
      (hphase : s.phase = .sending a.id) (hwritten : LinesOf start before s.lines)
  | failed (before : List Attempt) (a : Attempt) (lines part : List (List UInt8))
      (hcalls : s.calls = before ++ [a]) (hphase : s.phase = .sending a.id ∨ s.phase = .stopped)
      (hanswered : ∃ why, .answered a.id (.error why) ∈ s.effects)
      (hwritten : LinesOf start before lines) (hpart : FrontOf (start.frame a) part)
      (hlines : s.lines = lines ++ part)

theorem wrote_exchanges (start : Client) (done : List (Attempt × Completion)) :
    (done.flatMap (exchange start)).filterMap Effect.wrote? =
      (done.map Prod.fst).map start.frame := by
  induction done with
  | nil => rfl
  | cons e rest ih =>
    rw [List.flatMap_cons, List.filterMap_append, ih]
    rfl

/-- At any moment the calls have come to the connection, but for the last at most. -/
theorem reached {start : Client} {spec : Namespace.Spec} {s : State}
    {done : List (Attempt × Completion)} (hheeds : Heeds spec s) (hcourse : Course start s done) :
    Reached start s := by
  have hwritten {calls : List Attempt} (hsub : ∀ a ∈ calls, a ∈ s.calls)
      (hpassed : ∀ a ∈ calls, ∃ entry, start.checked a = .ok entry) :
      LinesOf start calls (calls.map start.frame) := by
    refine ⟨rfl, fun a ha => ?_⟩
    obtain ⟨entry, hchecked⟩ := hpassed a ha
    exact ⟨entry, hchecked, (orderly hheeds hcourse).carried a (hsub a ha) entry hchecked⟩
  have hdone : ∀ a ∈ done.map Prod.fst, ∃ entry, start.checked a = .ok entry := by
    intro a ha
    obtain ⟨e, he, rfl⟩ := List.mem_map.1 ha
    exact hcourse.passed e he
  cases hcourse.stand with
  | between hidle hcalls hmarks hphase =>
    have hlines : s.lines = s.calls.map start.frame := by
      rw [State.lines, ← wrote_marks, hmarks, wrote_exchanges, hcalls]
    exact .all (hlines ▸ hwritten (fun a ha => ha) (hcalls ▸ hdone))
  | amid a hcalls hmarks hstage hinputs hphase =>
    have hlines : s.lines = (done.map Prod.fst).map start.frame ++
        (marks s.seen).filterMap Effect.wrote? := by
      rw [State.lines, ← wrote_marks, hmarks, List.filterMap_append, wrote_exchanges]
    have hbefore := hwritten (fun b hb => hcalls ▸ List.mem_append_left [a] hb) hdone
    rw [← answerIn?_marks] at hphase
    cases hstage.wrote with
    | nothing hnothing hanswer =>
      rcases hphase with hsending | ⟨-, hregistered⟩ | ⟨-, why, hrefused⟩
      · rw [hnothing, List.append_nil] at hlines
        exact .underway _ a hcalls hsending (hlines ▸ hbefore)
      · cases hanswer.symm.trans hregistered
      · cases hanswer.symm.trans hrefused
    | whole hpassed hwhole hanswer =>
      have hall : s.lines = s.calls.map start.frame := by
        rw [hlines, hwhole, hcalls, List.map_append, List.map_singleton]
      refine .all (hall ▸ hwritten (fun b hb => hb) ?_)
      rw [hcalls, List.forall_mem_append, List.forall_mem_singleton]
      exact ⟨hdone, hpassed⟩
    | part why hpart hcause hanswer hmem =>
      have hanswered : .answered a.id (.error why) ∈ s.effects := by
        rw [← answered_mem_marks, hmarks]
        exact List.mem_append_right _ hmem
      refine .failed _ a _ _ hcalls ?_ ⟨why, hanswered⟩ hbefore hpart hlines
      rcases hphase with hsending | ⟨-, hregistered⟩ | ⟨hstopped, -⟩
      · exact .inl hsending
      · cases hanswer.symm.trans hregistered
      · exact .inr hstopped

/-- An entry is code if it is not blank and its first word does not start with the word for
commands. However the loop, its client and the remote end are interleaved, the calls are the
entries that are code, each once, in order and in the namespace that the commands before it have
set; and they reach the connection, each as one line, up to the first that fails. So it is with the
loop on any lines of input. -/
theorem code_is_sent_once (arguments : List String) (inv : CommandLine.Invocation)
    (hparse : CommandLine.parse arguments = .ok inv) (connection : Connection) (config : Config)
    (stager : Stager) (scratch : Scratch) :
    let client := Client.new connection config stager scratch
    let start := State.start client inv.spec
    (∀ entry, Sorted entry) ∧
      (∀ events, let s := start.run events
        s.spec = namespaceAfter inv.spec s.entries ∧
        s.calls.map asks = (sends inv.spec s.entries).map (fun sent =>
          (context, sent.1, .auto (trimmed sent.2))) ∧
        Reached client s) ∧
      ∀ counterpart n lines, ∃ events,
        Shows start (start.run events) (Repl.run counterpart client inv.spec n lines) lines := by
  intro client start
  have hheeds := Heeds.init client (CommandLine.resolves_of_parse hparse)
  have hcourse := Course.init client inv.spec ⟨rfl, rfl⟩
  refine ⟨sorted, ?_, fun counterpart n lines => run_shows counterpart hheeds hcourse rfl n lines⟩
  intro events s
  obtain ⟨hheedsRun, done, hcourseRun⟩ := course_run hheeds hcourse events
  exact ⟨hheedsRun.namespace_eq, hheedsRun.calls_eq, reached hheedsRun hcourseRun⟩

/-- The loop from the root namespace, on a command, a blank entry and code. -/
theorem code_is_sent_once_behind_command :
    ∃ inv, CommandLine.parse [] = .ok inv ∧
      let client := Client.new { peer := "repl" } {} {}
      let s := (State.start client inv.spec).run [.read [] (.entry ":ns Foo") "a" "",
        .read [] (.entry " ") "b" "", .read [] (.entry "x") "c" "", .take]
      s.entries = [":ns Foo", " ", "x"] ∧ s.spec = .symbol "Foo" ∧
        s.calls.map asks = [(context, .symbol "Foo", .auto "x")] ∧ Reached client s := by
  refine ⟨_, rfl, rfl, ?_⟩
  obtain ⟨-, hruns, -⟩ := code_is_sent_once [] _ rfl { peer := "repl" } {} {} {}
  exact hruns _

/-- Code whose first word only starts like the command is not sent, and code that comes after it is
sent in another namespace. -/
theorem code_is_taken_for_command :
    let start := State.start (Client.new { peer := "repl" } {} {}) .default
    let s := start.run [.read [] (.entry ":nsx") "a" "", .read [] (.entry "1") "b" ""]
    firstWord ":nsx" ≠ [] ∧ firstWord ":nsx" ≠ namespaceWord.toList ∧
      s.entries = [":nsx", "1"] ∧ start.spec = .default ∧ s.spec = .symbol "x" ∧
      s.calls.map asks = [(context, .symbol "x", .auto "1")] :=
  ⟨by decide, by decide, rfl, rfl, rfl, rfl⟩

end RemoteEval.Repl
