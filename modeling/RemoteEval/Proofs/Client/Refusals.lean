import RemoteEval.Proofs.Client.Standing
import RemoteEval.Proofs.Client.Wire

/-!
Calls that are refused before the loop hears of them: the namespace asked for is none, or the text
cannot be written to a scratch file. Such a call changes nothing, so a run with the call and the run
without it are the same for everybody but its sender.
-/
namespace RemoteEval

/-- A body that goes by way of a scratch file has its text written there. -/
theorem Client.prepare_of_unwritable {c : Client} {a : Attempt} {path : Path}
    {text : String} {why : Error} (hresolves : (Client.spec a).resolve = .ok path)
    (hroute : c.codeOrText a.body = .inr text)
    (hstage : c.scratch.stage c.stager a.stem text = .error why) : c.prepare a = .error why := by
  simp only [prepare, hresolves, hroute, hstage]

/-- A namespace that is none is found before anything else is looked at. -/
theorem Client.prepare_of_malformed {c : Client} {a : Attempt} {why : Namespace.Malformed}
    (hresolves : (Client.spec a).resolve = .error why) :
    c.prepare a = .error (.malformedNamespace why) := by
  simp only [prepare, hresolves]

theorem Client.submit_of_prepare_error {c : Client} {a : Attempt} {why : Error}
    (h : c.prepare a = .error why) :
    c.submit a = (c, flash a ++ [.answered a.id (.error why)]) := by
  simp only [submit, h]

/-- Nothing but the writing of a scratch file can fail when a text is staged. -/
theorem Scratch.stage_error_iff {s : Scratch} {stager : Stager} {stem text : String} {why : Error} :
    s.stage stager stem text = .error why ↔
      ∃ fault, s.stageFault? stager stem = some fault ∧
        why = .staging (.atPath fault (stager.path stem)) := by
  unfold stage
  cases s.stageFault? stager stem with
  | none => simp
  | some fault => simp [eq_comm]

namespace Client

/-- What is seen of a call that is refused at once: the selection is highlighted, and the sender is
told why. -/
def refusal (a : Attempt) (why : Error) : List Effect :=
  flash a ++ [.answered a.id (.error why)]

/-- Highlighting goes with selections only, and each is highlighted once. -/
theorem flash_eq (a : Attempt) :
    (∃ text start stop, a.body = .selection text start stop ∧
        flash a = [.editor (.flash a.origin start stop)]) ∨
      (∀ text start stop, a.body ≠ .selection text start stop) ∧ flash a = [] := by
  unfold flash
  cases hbody : a.body with
  | selection text start stop => exact .inl ⟨text, start, stop, rfl, rfl⟩
  | _ => exact .inr ⟨fun text start stop => nofun, rfl⟩

/-- A call that comes after some steps and is refused leaves no trace. -/
structure NoTrace (c : Client) (before : List Step) (a : Attempt) (why : Error) : Prop where
  submit_eq : (c.run before).1.submit a = ((c.run before).1, refusal a why)
  seen : (∃ text start stop, a.body = .selection text start stop ∧
      refusal a why =
        [.editor (.flash a.origin start stop), .answered a.id (.error why)]) ∨
    (∀ text start stop, a.body ≠ .selection text start stop) ∧
      refusal a why = [.answered a.id (.error why)]
  /-- Whatever is done later comes to what it would have come to without the call. -/
  state_eq : ∀ after,
    (c.run (before ++ .submit a :: after)).1 = (c.run (before ++ after)).1
  effects_eq : ∀ after, ∃ later,
    (c.run (before ++ .submit a :: after)).2 = (c.run before).2 ++ refusal a why ++ later ∧
      (c.run (before ++ after)).2 = (c.run before).2 ++ later
  kinds_eq : ∀ after (kind : Effect → Bool), (∀ effect ∈ refusal a why, kind effect = false) →
    (c.run (before ++ .submit a :: after)).2.filter kind =
      (c.run (before ++ after)).2.filter kind
  wire_eq : ∀ after, wireBytes (c.run (before ++ .submit a :: after)).2 =
    wireBytes (c.run (before ++ after)).2

/-- The sender of a selection sees it highlighted. -/
theorem refusal_eq (a : Attempt) (why : Error) :
    (∃ text start stop, a.body = .selection text start stop ∧
        refusal a why = [.editor (.flash a.origin start stop), .answered a.id (.error why)]) ∨
      (∀ text start stop, a.body ≠ .selection text start stop) ∧
        refusal a why = [.answered a.id (.error why)] := by
  rcases flash_eq a with ⟨text, start, stop, hbody, hflash⟩ | ⟨hbody, hflash⟩
  · exact .inl ⟨text, start, stop, hbody, by rw [refusal, hflash]; rfl⟩
  · exact .inr ⟨hbody, by rw [refusal, hflash]; rfl⟩

theorem wireBytes_refusal (a : Attempt) (why : Error) : wireBytes (refusal a why) = [] := by
  rcases refusal_eq a why with ⟨text, start, stop, -, hrefusal⟩ | ⟨-, hrefusal⟩ <;>
    rw [hrefusal] <;> rfl

/-- A step that leaves the client as it is puts what it shows into the run and does nothing
else. -/
theorem run_idle {c : Client} {before : List Step} {s : Step} {shown : List Effect}
    (h : (c.run before).1.step s = ((c.run before).1, shown)) (after : List Step) :
    c.run (before ++ s :: after) =
      ((c.run (before ++ after)).1,
        (c.run before).2 ++ shown ++ ((c.run before).1.run after).2) := by
  rw [run_append, run_append, andThen, run, h]
  simp only [andThen, List.append_assoc]

theorem noTrace {c : Client} {before : List Step} {a : Attempt} {why : Error}
    (h : (c.run before).1.prepare a = .error why) : c.NoTrace before a why := by
  have hsubmit : (c.run before).1.submit a = ((c.run before).1, refusal a why) :=
    submit_of_prepare_error h
  have hwith := run_idle (s := .submit a) hsubmit
  have hwithout : ∀ after, (c.run (before ++ after)).2 =
      (c.run before).2 ++ ((c.run before).1.run after).2 := by
    intro after
    rw [run_append, andThen_snd]
  refine ⟨hsubmit, refusal_eq a why, ?_, ?_, ?_, ?_⟩
  · intro after
    rw [hwith]
  · intro after
    exact ⟨((c.run before).1.run after).2, by rw [hwith], hwithout after⟩
  · intro after kind hkind
    have hrefusal : (refusal a why).filter kind = [] :=
      List.filter_eq_nil_iff.2 fun effect heffect => by simp [hkind effect heffect]
    rw [hwith, hwithout, List.filter_append, List.filter_append, hrefusal, List.append_nil,
      List.filter_append]
  · intro after
    have hrefusal := wireBytes_refusal a why
    rw [wireBytes] at hrefusal
    rw [hwith, hwithout]
    simp only [wireBytes, List.filterMap_append, List.flatten_append, hrefusal, List.append_nil]

/-- At every point of every run a call whose namespace is none is refused for that, whatever the
state of the client and of the scratch directory, and a call whose text cannot be written to a
scratch file is refused for that. Neither leaves a trace. -/
theorem refused_calls_leave_no_trace (c : Client) (before : List Step) (a : Attempt) :
    (∀ why, (spec a).resolve = .error why → c.NoTrace before a (.malformedNamespace why)) ∧
      ∀ path text why, (spec a).resolve = .ok path →
        (c.run before).1.codeOrText a.body = .inr text →
        (c.run before).1.scratch.stage (c.run before).1.stager a.stem text = .error why →
        (∃ fault, why = .staging fault) ∧ c.NoTrace before a why := by
  constructor
  · intro why hresolves
    exact noTrace (prepare_of_malformed hresolves)
  · intro path text why hresolves hroute hstage
    obtain ⟨fault, -, hwhy⟩ := Scratch.stage_error_iff.1 hstage
    exact ⟨⟨_, hwhy⟩, noTrace (prepare_of_unwritable hresolves hroute hstage)⟩

/-- One request is in the table, the next waits in the queue, and there is no scratch directory: a
selection with a nameless namespace and a text of two lines are refused, here and once the client is
closed. -/
theorem refused_calls_leave_no_trace_without_directory :
    let c := Client.new { peer := "repl" } {} {} { usable := false }
    let before : List Step := [.submit ⟨"a", "", "buffer", .default, .text "1", {}⟩, .take,
      .submit ⟨"b", "", "buffer", .default, .text "2", {}⟩]
    let nameless : Attempt := ⟨"c", "x", "buffer", .symbol "", .selection "1\n2" 0 3, {}⟩
    let lines : Attempt := ⟨"d", "y", "buffer", .default, .auto "1\n2", {}⟩
    (c.run before).1.table.ids = ["a"] ∧ (c.run before).1.queue.length = 1 ∧
      (c.run (before ++ [.stop])).1.closed = true ∧
      c.NoTrace before nameless (.malformedNamespace (.identifier "")) ∧
      c.NoTrace (before ++ [.stop]) nameless (.malformedNamespace (.identifier "")) ∧
      c.NoTrace before lines (.staging (.atPath .missing (Stager.path {} "y"))) ∧
      c.NoTrace (before ++ [.stop]) lines (.staging (.atPath .missing (Stager.path {} "y"))) := by
  intro c before nameless lines
  refine ⟨rfl, rfl, rfl, ?_, ?_, ?_, ?_⟩
  · exact (refused_calls_leave_no_trace c before nameless).1 _ rfl
  · exact (refused_calls_leave_no_trace c (before ++ [.stop]) nameless).1 _ rfl
  · exact ((refused_calls_leave_no_trace c before lines).2 Path.root "1\n2" _ rfl rfl
      (Scratch.stage_error_iff.2 ⟨.missing, by decide +kernel, rfl⟩)).2
  · exact ((refused_calls_leave_no_trace c (before ++ [.stop]) lines).2 Path.root "1\n2" _ rfl rfl
      (Scratch.stage_error_iff.2 ⟨.missing, by decide +kernel, rfl⟩)).2

end Client

end RemoteEval
