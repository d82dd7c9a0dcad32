import RemoteEval.Proofs.Client.Exchange
import RemoteEval.Proofs.Repl.Entries

/-!
The interactive loop beside its client. The loop reads an entry, sends it, and looks whether the
call has returned and then whether the ticket is resolved. The client's own loop, the remote end
and whoever deletes files go on meanwhile, in any order. Whatever they do, the loop is either
between two requests, and then its client is idle, or amid the last of its calls.
-/
namespace RemoteEval.Repl

open Client Text

inductive Phase where
  | reading
  | sending (id : RequestId)
  | waiting (id : RequestId)
  | stopped
  deriving DecidableEq, Repr

structure State where
  client : Client
  spec : Namespace.Spec
  phase : Phase := .reading
  seen : List Effect := []
  inputs : List Input := []
  calls : List Attempt := []
  effects : List Effect := []
  prints : List Print := []

inductive Event where
  /-- An input comes, if the loop asks for one; something may be said meanwhile. If it is sent this
  id and this stem are drawn for it. -/
  | read (complaints : List String) (input : Input) (id : RequestId) (stem : String)
  | look
  | take
  | receive
  | stop
  | connection (change : Connection → Connection)
  | erase (path : String)

/-- Whether an event leaves the loop where it is: its client and the remote end go on. -/
def Event.aside : Event → Bool
  | .read _ _ _ _ => false
  | .look => false
  | _ => true

def Input.entry? : Input → Option String
  | .entry text => some text
  | _ => none

namespace State

def start (client : Client) (spec : Namespace.Spec) : State := { client, spec }

def entries (s : State) : List String := s.inputs.filterMap Input.entry?

def saw (s : State) (out : Client × List Effect) : State :=
  { s with
    client := out.1
    seen := s.seen ++ out.2
    effects := s.effects ++ out.2
    prints := s.prints ++ out.2.filterMap Effect.printed }

def given (s : State) (complaints : List String) (input : Input) : State :=
  { s with
    inputs := s.inputs ++ [input]
    prints := s.prints ++ .out (prompt s.spec) :: complaints.map .err }

def say (s : State) (print : Print) : State := { s with prints := s.prints ++ [print] }

def send (s : State) (code : String) (id : RequestId) (stem : String) : State :=
  let a : Attempt := ⟨id, stem, context, s.spec, .auto code, {}⟩
  { s with phase := .sending id, calls := s.calls ++ [a], seen := [] }.saw
    (s.client.step (.submit a))

def handle (s : State) (entry : String) (id : RequestId) (stem : String) : State :=
  match action entry with
  | .nothing => s
  | .switch (.ok spec) => { s with spec }
  | .switch (.error why) => s.say (.err ((Error.malformedNamespace why).message ++ "\n"))
  | .evaluate code => s.send code id stem

def read (s : State) (complaints : List String) (input : Input) (id : RequestId) (stem : String) :
    State :=
  let s := s.given complaints input
  match input with
  | .ended => { s with phase := .stopped }
  | .failed why => { s with phase := .stopped }.say (.out (readFailure why))
  | .entry entry => s.handle entry id stem

def returns (s : State) (id : RequestId) : Except Error Unit → State
  | .ok () => { s with phase := .waiting id }
  | .error why => { s with phase := .stopped }.say (.err (why.message ++ "\n"))

def resolves (s : State) : Completion → State
  | .success => { s with phase := .reading }.say (.out "ok\n")
  | .failure _ => { s with phase := .reading }

def look (s : State) : State :=
  match s.phase with
  | .sending id => (answerIn? id s.seen).elim s (s.returns id)
  | .waiting id => (completionIn? id s.seen).elim s s.resolves
  | _ => s

theorem look_sending {s : State} {id : RequestId} (hsending : s.phase = .sending id) :
    s.look = (answerIn? id s.seen).elim s (s.returns id) := by
  simp only [look, hsending]

theorem look_waiting {s : State} {id : RequestId} (hwaiting : s.phase = .waiting id) :
    s.look = (completionIn? id s.seen).elim s s.resolves := by
  simp only [look, hwaiting]

def next (s : State) : Event → State
  | .read complaints input id stem =>
    match s.phase with
    | .reading => s.read complaints input id stem
    | _ => s
  | .look => s.look
  | .take => s.saw (s.client.step .take)
  | .receive => s.saw (s.client.step .receive)
  | .stop => s.saw (s.client.step .stop)
  | .connection change =>
    s.saw ({ s.client with connection := change s.client.connection }, [])
  | .erase path => s.saw (s.client.step (.erase path))

def run (s : State) (events : List Event) : State := events.foldl next s

end State

/-- What a terminal prints for a client goes to standard error. -/
theorem out_not_mem_printed (text : String) (effects : List Effect) :
    .out text ∉ effects.filterMap Effect.printed := by
  intro hmem
  obtain ⟨effect, -, hprinted⟩ := List.mem_filterMap.1 hmem
  cases effect with
  | editor call =>
    obtain ⟨shown, -, hout⟩ := Option.map_eq_some_iff.1 hprinted
    cases hout
  | _ => cases hprinted

/-- What others see of a call whose request has ended: its line, its return, its ticket. -/
def exchange (start : Client) (done : Attempt × Completion) : List Effect :=
  [.wrote (start.frame done.1), .answered done.1.id (.ok ()), .resolved done.1.id done.2]

/-- Where the loop stands with its client, when these calls of its have come to these ends. -/
inductive Stand (start : Client) (s : State) (done : List (Attempt × Completion)) : Prop where
  | between (hidle : s.client.Idle) (hcalls : s.calls = done.map Prod.fst)
      (hmarks : marks s.effects = done.flatMap (exchange start))
      (hphase : (s.phase = .reading ∧ ∀ input ∈ s.inputs, input.entry?.isSome) ∨
        (s.phase = .stopped ∧ ∃ input ∈ s.inputs, input.entry? = none))
  | amid (a : Attempt) (hcalls : s.calls = done.map Prod.fst ++ [a])
      (hmarks : marks s.effects = done.flatMap (exchange start) ++ marks s.seen)
      (hstage : Stage start s.client a (marks s.seen))
      (hinputs : ∀ input ∈ s.inputs, input.entry?.isSome)
      (hphase : s.phase = .sending a.id ∨
        (s.phase = .waiting a.id ∧ answerIn? a.id s.seen = some (.ok ())) ∨
        (s.phase = .stopped ∧ ∃ why, answerIn? a.id s.seen = some (.error why)))

/-- What is printed, which namespace the loop is in, and that one more entry has been read, have no
part in where the loop stands. -/
theorem Stand.congr {start : Client} {s t : State} {done : List (Attempt × Completion)}
    (h : Stand start s done) (hclient : t.client = s.client) (hphase : t.phase = s.phase)
    (hseen : t.seen = s.seen) (hcalls : t.calls = s.calls) (heffects : t.effects = s.effects)
    (hinputs : ∃ more, t.inputs = s.inputs ++ more ∧ ∀ input ∈ more, input.entry?.isSome) :
    Stand start t done := by
  obtain ⟨more, hmore, hentries⟩ := hinputs
  have hall : (∀ input ∈ s.inputs, input.entry?.isSome) →
      ∀ input ∈ t.inputs, input.entry?.isSome := by
    intro hbefore
    rw [hmore, List.forall_mem_append]
    exact ⟨hbefore, hentries⟩
  cases h with
  | between hidle hdone hmarks hbetween =>
    rw [← hclient] at hidle
    rw [← hcalls] at hdone
    rw [← heffects] at hmarks
    rw [← hphase] at hbetween
    refine .between hidle hdone hmarks ?_
    rcases hbetween with ⟨hreading, hbefore⟩ | ⟨hstopped, input, hinput, hnone⟩
    · exact .inl ⟨hreading, hall hbefore⟩
    · refine .inr ⟨hstopped, input, ?_, hnone⟩
      rw [hmore]
      exact List.mem_append_left more hinput
  | amid a hdone hmarks hstage hbefore hamid =>
    rw [← hcalls] at hdone
    rw [← heffects, ← hseen] at hmarks
    rw [← hclient, ← hseen] at hstage
    rw [← hphase, ← hseen] at hamid
    exact .amid a hdone hmarks hstage (hall hbefore) hamid

/-- The course of the loop: these calls have come to these ends, and the loop knows of it. -/
structure Course (start : Client) (s : State) (done : List (Attempt × Completion)) : Prop where
  checked_eq : s.client.checked = start.checked
  passed : ∀ e ∈ done, ∃ entry, start.checked e.1 = .ok entry
  stand : Stand start s done
  oks : s.prints.count (.out "ok\n") = done.countP fun e => e.2 == .success

namespace Course

variable {start : Client} {s : State} {done : List (Attempt × Completion)}

theorem init (client : Client) (spec : Namespace.Spec) (hidle : client.Idle) :
    Course client (State.start client spec) [] where
  checked_eq := rfl
  passed := by
    intro e he
    cases he
  stand := .between hidle rfl rfl (.inl ⟨rfl, by rintro input ⟨⟩⟩)
  oks := rfl

theorem count_printed (s : State) (effects : List Effect) :
    (s.prints ++ effects.filterMap Effect.printed).count (.out "ok\n") =
      s.prints.count (.out "ok\n") := by
  rw [List.count_append, List.count_eq_zero_of_not_mem (out_not_mem_printed _ effects),
    Nat.add_zero]

/-- The client goes on by itself. -/
theorem saw (h : Course start s done) {out : Client × List Effect}
    (hchecked : out.1.checked = s.client.checked)
    (hidle : s.client.Idle → out.1.Idle ∧ marks out.2 = [])
    (hstage : ∀ a, Stage start s.client a (marks s.seen) →
      Stage start out.1 a (marks s.seen ++ marks out.2)) :
    Course start (s.saw out) done where
  checked_eq := hchecked.trans h.checked_eq
  passed := h.passed
  stand := by
    cases h.stand with
    | between hquiet hcalls hmarks hphase =>
      obtain ⟨hstill, hnothing⟩ := hidle hquiet
      refine .between hstill hcalls ?_ hphase
      rw [State.saw, marks_append, hmarks, hnothing, List.append_nil]
    | amid a hcalls hmarks hstand hinputs hphase =>
      refine .amid a hcalls ?_ ?_ hinputs ?_
      · rw [State.saw, marks_append, marks_append, hmarks, List.append_assoc]
      · rw [State.saw, marks_append]
        exact hstage a hstand
      · rcases hphase with hsending | ⟨hwaiting, hanswer⟩ | ⟨hstopped, why, hanswer⟩
        · exact .inl hsending
        · exact .inr (.inl ⟨hwaiting, answerIn?_append hanswer _⟩)
        · exact .inr (.inr ⟨hstopped, why, answerIn?_append hanswer _⟩)
  oks := (count_printed s out.2).trans h.oks

theorem step (h : Course start s done) {step : Step} (hunasked : step.unasked = true) :
    Course start (s.saw (s.client.step step)) done := by
  refine h.saw (s.client.step_checked step) ?_ fun a hstage => hstage.step hunasked
  intro hidle
  obtain ⟨hstill, hmarks, -⟩ := (s.client.step_change step).idle hidle hunasked
  exact ⟨hstill, (s.client.marks_step step).trans hmarks⟩

theorem connection (h : Course start s done) (connection : Connection) :
    Course start (s.saw ({ s.client with connection }, [])) done := by
  refine h.saw (checked_congr ⟨rfl, rfl, rfl, rfl⟩ rfl) ?_ ?_
  · intro hidle
    exact ⟨⟨hidle.queue_nil, hidle.table_nil⟩, rfl⟩
  · intro a hstage
    rw [show marks ([] : List Effect) = [] from rfl, List.append_nil]
    exact hstage.connection connection

/-- While the loop asks for input it is between two requests. -/
theorem of_reading (h : Course start s done) (hreading : s.phase = .reading) :
    s.client.Idle ∧ s.calls = done.map Prod.fst ∧
      marks s.effects = done.flatMap (exchange start) ∧
      ∀ input ∈ s.inputs, input.entry?.isSome := by
  cases h.stand with
  | between hidle hcalls hmarks hphase =>
    rcases hphase with ⟨-, hinputs⟩ | ⟨hstopped, -⟩
    · exact ⟨hidle, hcalls, hmarks, hinputs⟩
    · cases hreading.symm.trans hstopped
  | amid a hcalls hmarks hstage hinputs hphase =>
    rcases hphase with hsending | ⟨hwaiting, -⟩ | ⟨hstopped, -⟩
    · cases hreading.symm.trans hsending
    · cases hreading.symm.trans hwaiting
    · cases hreading.symm.trans hstopped

/-- While the loop waits it is amid its last call, of which it knows if that has returned. -/
theorem of_busy (h : Course start s done) {id : RequestId}
    (hbusy : s.phase = .sending id ∨ s.phase = .waiting id) :
    ∃ a, a.id = id ∧ s.calls = done.map Prod.fst ++ [a] ∧
      marks s.effects = done.flatMap (exchange start) ++ marks s.seen ∧
      Stage start s.client a (marks s.seen) ∧ (∀ input ∈ s.inputs, input.entry?.isSome) ∧
      (s.phase = .waiting id → answerIn? id s.seen = some (.ok ())) := by
  cases h.stand with
  | between hidle hcalls hmarks hphase =>
    rcases hphase with ⟨hother, -⟩ | ⟨hother, -⟩ <;>
    · rw [hother] at hbusy
      rcases hbusy with hbusy | hbusy <;> cases hbusy
  | amid a hcalls hmarks hstage hinputs hphase =>
    have hid : ∀ {other : RequestId}, s.phase = .sending other ∨ s.phase = .waiting other →
        other = id := by
      rintro other (hother | hother) <;>
      · rw [hother] at hbusy
        rcases hbusy with hbusy | hbusy <;> cases hbusy
        rfl
    rcases hphase with hsending | ⟨hwaiting, hanswer⟩ | ⟨hstopped, -⟩
    · refine ⟨a, hid (.inl hsending), hcalls, hmarks, hstage, hinputs, ?_⟩
      intro hwaiting
      cases hsending.symm.trans hwaiting
    · obtain rfl := hid (.inr hwaiting)
      exact ⟨a, rfl, hcalls, hmarks, hstage, hinputs, fun _ => hanswer⟩
    · rw [hstopped] at hbusy
      rcases hbusy with hbusy | hbusy <;> cases hbusy

/-- A call that the loop makes is the last of its calls. -/
theorem send (h : Course start s done) (hreading : s.phase = .reading)
    (hresolves : s.spec.Resolves) (code : String) (id : RequestId) (stem : String) :
    Course start (s.send code id stem) done := by
  obtain ⟨hidle, hcalls, hmarks, hinputs⟩ := h.of_reading hreading
  let a : Attempt := ⟨id, stem, context, s.spec, .auto code, {}⟩
  have hstage := Stage.submit (a := a) hidle h.checked_eq hresolves
  refine ⟨(s.client.step_checked _).trans h.checked_eq, h.passed, ?_, ?_⟩
  · refine .amid a ?_ ?_ hstage hinputs (.inl rfl)
    · exact congrArg (· ++ [a]) hcalls
    · rw [State.send, State.saw, marks_append, hmarks, List.nil_append]
  · exact (count_printed s _).trans h.oks

theorem count_given (s : State) (complaints : List String) (input : Input) :
    (s.given complaints input).prints.count (.out "ok\n") = s.prints.count (.out "ok\n") := by
  have hprompt : (Print.out (prompt s.spec) == .out "ok\n") = false := by
    rw [beq_eq_false_iff_ne]
    intro heq
    exact prompt_ne_ok s.spec (Print.out.inj heq)
  have hcomplaints : .out "ok\n" ∉ complaints.map Print.err := by simp
  rw [State.given, List.count_append, List.count_cons, hprompt,
    List.count_eq_zero_of_not_mem hcomplaints]
  rfl

/-- An entry that has been read is one more among the inputs, and that is all. -/
theorem given (h : Course start s done) (complaints : List String) (entry : String) :
    Course start (s.given complaints (.entry entry)) done where
  checked_eq := h.checked_eq
  passed := h.passed
  stand := h.stand.congr rfl rfl rfl rfl rfl ⟨[.entry entry], rfl, by simp [Input.entry?]⟩
  oks := (count_given s complaints _).trans h.oks

/-- Where no entry comes the loop ends. -/
theorem finish (h : Course start s done) (hreading : s.phase = .reading)
    (complaints : List String) {input : Input} (hinput : input.entry? = none) :
    Course start { s.given complaints input with phase := .stopped } done where
  checked_eq := h.checked_eq
  passed := h.passed
  stand := by
    obtain ⟨hidle, hcalls, hmarks, -⟩ := h.of_reading hreading
    exact .between hidle hcalls hmarks
      (.inr ⟨rfl, input, List.mem_append_right _ (List.mem_singleton_self input), hinput⟩)
  oks := (count_given s complaints input).trans h.oks

/-- Printing something else than `ok` is of no account. -/
theorem say (h : Course start s done) {print : Print} (hprint : print ≠ .out "ok\n") :
    Course start (s.say print) done where
  checked_eq := h.checked_eq
  passed := h.passed
  stand := h.stand.congr rfl rfl rfl rfl rfl ⟨[], (List.append_nil _).symm, by simp⟩
  oks := by
    have hnone : .out "ok\n" ∉ [print] := by simpa using hprint.symm
    rw [State.say, List.count_append, List.count_eq_zero_of_not_mem hnone, Nat.add_zero]
    exact h.oks

theorem setSpec (h : Course start s done) (spec : Namespace.Spec) :
    Course start { s with spec } done where
  checked_eq := h.checked_eq
  passed := h.passed
  stand := h.stand.congr rfl rfl rfl rfl rfl ⟨[], (List.append_nil _).symm, by simp⟩
  oks := h.oks

theorem handle (h : Course start s done) (hreading : s.phase = .reading)
    (hresolves : s.spec.Resolves) (entry : String) (id : RequestId) (stem : String) :
    Course start (s.handle entry id stem) done := by
  unfold State.handle
  split
  · exact h
  · exact h.setSpec _
  · exact h.say (by simp)
  · exact h.send hreading hresolves _ id stem

theorem read (h : Course start s done) (hreading : s.phase = .reading)
    (hresolves : s.spec.Resolves) (complaints : List String) (input : Input) (id : RequestId)
    (stem : String) : Course start (s.read complaints input id stem) done := by
  cases input with
  | ended => exact h.finish hreading complaints rfl
  | failed why =>
    refine (h.finish hreading complaints rfl).say ?_
    exact fun heq => readFailure_ne (by decide) why (Print.out.inj heq)
  | entry text => exact (h.given complaints text).handle hreading hresolves text id stem

/-- A ticket that is waited for and resolved is that of a request that has been written and is not
tracked any more. -/
theorem exchange_of_stage {c : Client} {a : Attempt} {seen : List Effect}
    (hstage : Stage start c a (marks seen)) (hanswer : answerIn? a.id seen = some (.ok ()))
    {completion : Completion} (hend : completionIn? a.id seen = some completion) :
    c.Idle ∧ marks seen = exchange start (a, completion) ∧
      ∃ entry, start.checked a = .ok entry := by
  rw [← answerIn?_marks] at hanswer
  rw [← completionIn?_marks] at hend
  generalize marks seen = shown at hstage hanswer hend
  cases hstage with
  | queued request inflight hchecked hqueue htable => simp [answerIn?] at hanswer
  | refused why hwhy hidle => simp [answerIn?] at hanswer
  | broken written hfront hidle => simp [answerIn?] at hanswer
  | tracked entry hchecked hqueue htable => simp [completionIn?] at hend
  | ended entry found hchecked hidle =>
    have hsame : found = completion := by simpa [completionIn?] using hend
    subst hsame
    exact ⟨hidle, rfl, entry, hchecked⟩

/-- The loop learns that its call has returned. -/
theorem returns (h : Course start s done) {id : RequestId} (hsending : s.phase = .sending id)
    {result : Except Error Unit} (hanswer : answerIn? id s.seen = some result) :
    Course start (s.returns id result) done := by
  obtain ⟨a, rfl, hcalls, hmarks, hstage, hinputs, -⟩ := h.of_busy (.inl hsending)
  cases result with
  | ok _ =>
    exact ⟨h.checked_eq, h.passed,
      .amid a hcalls hmarks hstage hinputs (.inr (.inl ⟨rfl, hanswer⟩)), h.oks⟩
  | error why =>
    have hstopped : Course start { s with phase := .stopped } done :=
      ⟨h.checked_eq, h.passed,
        .amid a hcalls hmarks hstage hinputs (.inr (.inr ⟨rfl, why, hanswer⟩)), h.oks⟩
    exact hstopped.say (by simp)

/-- The loop learns that the ticket it waits for is resolved. -/
theorem resolves (h : Course start s done) {id : RequestId} (hwaiting : s.phase = .waiting id)
    {completion : Completion} (hend : completionIn? id s.seen = some completion) :
    ∃ a, Course start (s.resolves completion) (done ++ [(a, completion)]) := by
  obtain ⟨a, rfl, hcalls, hmarks, hstage, hinputs, hanswer⟩ := h.of_busy (.inr hwaiting)
  obtain ⟨hidle, hseen, hpassed⟩ := exchange_of_stage hstage (hanswer hwaiting) hend
  have hcalled : s.calls = (done ++ [(a, completion)]).map Prod.fst := by
    rw [List.map_append]
    exact hcalls
  have hmarked : marks s.effects = (done ++ [(a, completion)]).flatMap (exchange start) := by
    rw [List.flatMap_append, List.flatMap_singleton, ← hseen]
    exact hmarks
  refine ⟨a, ?_, ?_, ?_, ?_⟩
  · cases completion <;> exact h.checked_eq
  · intro e he
    rcases List.mem_append.1 he with hbefore | hlast
    · exact h.passed e hbefore
    · cases List.mem_singleton.1 hlast
      exact hpassed
  · cases completion <;> exact .between hidle hcalled hmarked (.inl ⟨rfl, hinputs⟩)
  · rw [List.countP_append, ← h.oks]
    cases completion with
    | success => exact List.count_append
    | failure why => rfl

theorem look (h : Course start s done) : ∃ done, Course start s.look done := by
  cases hphase : s.phase with
  | reading => exact ⟨done, by simpa only [State.look, hphase] using h⟩
  | stopped => exact ⟨done, by simpa only [State.look, hphase] using h⟩
  | sending id =>
    rw [State.look_sending hphase]
    cases hanswer : answerIn? id s.seen with
    | none => exact ⟨done, h⟩
    | some result => exact ⟨done, h.returns hphase hanswer⟩
  | waiting id =>
    rw [State.look_waiting hphase]
    cases hend : completionIn? id s.seen with
    | none => exact ⟨done, h⟩
    | some completion =>
      obtain ⟨a, hcourse⟩ := h.resolves hphase hend
      exact ⟨_, hcourse⟩

theorem aside (h : Course start s done) {event : Event} (haside : event.aside = true) :
    Course start (s.next event) done := by
  cases event with
  | read complaints input id stem => cases haside
  | look => cases haside
  | take => exact h.step rfl
  | receive => exact h.step rfl
  | stop => exact h.step rfl
  | connection change => exact h.connection _
  | erase path => exact h.step rfl

/-- Whatever happens, the loop goes on in its course. -/
theorem next (h : Course start s done) (hresolves : s.spec.Resolves) (event : Event) :
    ∃ done, Course start (s.next event) done := by
  cases event with
  | read complaints input id stem =>
    unfold State.next
    cases hphase : s.phase with
    | reading => exact ⟨done, h.read hphase hresolves complaints input id stem⟩
    | _ => exact ⟨done, h⟩
  | look => exact h.look
  | _ => exact ⟨done, h.aside rfl⟩

end Course

end RemoteEval.Repl
