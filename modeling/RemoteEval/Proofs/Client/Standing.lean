import RemoteEval.Proofs.Client.Turn

/-!
How a call to send stands in the course of a run: its request is queued, refused, waits for its
response, or is finished. The standing says all that the history holds about the request, so it
says what has been shown of it. A turn moves a request from one standing to another.
-/
namespace RemoteEval

def Step.attempt? : Step → Option Attempt
  | .submit a => some a
  | _ => none

def attempts (steps : List Step) : List Attempt := steps.filterMap Step.attempt?

theorem attempts_cons (s : Step) (rest : List Step) :
    attempts (s :: rest) = s.attempt?.toList ++ attempts rest := by
  rw [attempts, List.filterMap_cons]
  cases s.attempt? <;> rfl

structure Inflight.Of (inflight : Inflight) (a : Attempt) : Prop where
  origin_eq : inflight.origin = a.origin
  callbacks_eq : inflight.callbacks = a.callbacks

inductive Standing (a : Attempt) : Place → List Moment → Prop where
  | queued {history : List Moment} (request : Request) (inflight : Inflight)
      (hof : inflight.Of a) (hdealings : dealings a.id history = []) :
      Standing a ⟨[(request, inflight)], none, false⟩ history
  | refused {history : List Moment} (closed : Bool) (why : Error)
      (hdealings : dealings a.id history = [.answered a.id (.error why)]) :
      Standing a ⟨[], none, closed⟩ history
  | waiting {history : List Moment} (request : Request) (inflight : Inflight)
      (written : List UInt8) (hof : inflight.Of a)
      (hdealings : dealings a.id history =
        [.registered request inflight written, .answered a.id (.ok ())])
      (hdecided : decided a.id history = none) :
      Standing a ⟨[], some inflight, false⟩ history
  | finished {history : List Moment} (closed : Bool) (request : Request) (inflight : Inflight)
      (written : List UInt8) (completion : Completion) (hof : inflight.Of a)
      (hdealings : dealings a.id history =
        [.registered request inflight written, .answered a.id (.ok ()),
          .finished a.id inflight completion])
      (hdecided : decided a.id history = some completion) :
      Standing a ⟨[], none, closed⟩ history
  | unwritten {history : List Moment} (closed : Bool) (request : Request) (inflight : Inflight)
      (written : List UInt8) (hof : inflight.Of a)
      (hdealings : dealings a.id history =
        [.registered request inflight written,
          .finished a.id inflight (.failure .connectionClosed),
          .answered a.id (.error .connectionClosed)])
      (hdecided : decided a.id history = some (.failure .connectionClosed)) :
      Standing a ⟨[], none, closed⟩ history

structure Absent (id : RequestId) (p : Place) (history : List Moment) : Prop where
  queued_nil : p.queued = []
  tracked_none : p.tracked = none
  dealings_nil : dealings id history = []

theorem Absent.turn {id : RequestId} {p q : Place} {history moments : List Moment}
    (h : Absent id p history) (hturn : Turn id p moments q) :
    Absent id q (history ++ moments) := by
  obtain ⟨hqueue, hfree, hnothing⟩ := h
  cases hturn with
  | aside hdealings _ =>
    refine ⟨hqueue, hfree, ?_⟩
    rw [dealings_append, hnothing, hdealings]
    rfl
  | duplicate queued rest hqueued _ =>
    rw [hqueue] at hqueued
    cases hqueued
  | accepted request inflight written rest _ hqueued _ =>
    rw [hqueue] at hqueued
    cases hqueued
  | unwritten request inflight written rest hqueued _ _ _ =>
    rw [hqueue] at hqueued
    cases hqueued
  | ended hdealings _ =>
    refine ⟨rfl, rfl, ?_⟩
    rw [dealings_append, hnothing, hdealings, hqueue, hfree]
    rfl
  | responded inflight completion htracked _ _ =>
    rw [hfree] at htracked
    cases htracked

theorem Absent.call {a : Attempt} {p q : Place} {history moments : List Moment}
    (h : Absent a.id p history) (hcall : Call a p moments q) :
    Standing a q (history ++ moments) := by
  obtain ⟨queued, tracked, closed⟩ := p
  obtain ⟨hqueue, hfree, hnothing⟩ := h
  cases hqueue
  cases hfree
  cases hcall with
  | refused why =>
    refine .refused closed why ?_
    rw [dealings_append, hnothing]
    simp [dealings, Moment.about]
  | queued request inflight horigin hcallbacks hopen =>
    cases hopen
    refine .queued request inflight ⟨horigin, hcallbacks⟩ ?_
    rw [List.append_nil]
    exact hnothing

/-- What decided a request goes on doing so. -/
theorem decided_append_of_some {id : RequestId} {history : List Moment} {completion : Completion}
    {request : Request} {inflight : Inflight} {written : List UInt8} {rest : List Moment}
    (hdealings : dealings id history = .registered request inflight written :: rest)
    (hdecided : decided id history = some completion) (moments : List Moment) :
    decided id (history ++ moments) = some completion := by
  rw [decided_append_of_dealings hdealings, hdecided]
  rfl

theorem dealings_append_of_nil {id : RequestId} {moments : List Moment}
    (h : dealings id moments = []) (history : List Moment) :
    dealings id (history ++ moments) = dealings id history := by
  rw [dealings_append, h, List.append_nil]

namespace Standing

variable {a : Attempt} {p q : Place} {history moments : List Moment}

theorem aside (h : Standing a p history) (hdealings : dealings a.id moments = [])
    (houtcome : p.tracked = none ∨ outcome a.id moments = none) :
    Standing a p (history ++ moments) := by
  have hsame := dealings_append_of_nil hdealings history
  cases h with
  | queued request inflight hof hnothing =>
    exact .queued request inflight hof (hsame.trans hnothing)
  | refused closed why hrefused =>
    exact .refused closed why (hsame.trans hrefused)
  | waiting request inflight written hof hwaiting hopen =>
    refine .waiting request inflight written hof (hsame.trans hwaiting) ?_
    rcases houtcome with htracked | houtcome
    · cases htracked
    · rw [decided_append_of_dealings hwaiting, hopen, houtcome]
      rfl
  | finished closed request inflight written completion hof hfinished hdecided =>
    exact .finished closed request inflight written completion hof (hsame.trans hfinished)
      (decided_append_of_some hfinished hdecided moments)
  | unwritten closed request inflight written hof hfinished hdecided =>
    exact .unwritten closed request inflight written hof (hsame.trans hfinished)
      (decided_append_of_some hfinished hdecided moments)

theorem ended (h : Standing a p history)
    (hdealings : dealings a.id moments =
      (p.tracked.toList.map fun inflight =>
        .finished a.id inflight (.failure .connectionClosed)) ++
      p.queued.map fun _ => .answered a.id (.error .connectionClosed))
    (houtcome : outcome a.id moments = some (.failure .connectionClosed)) :
    Standing a .afterEnd (history ++ moments) := by
  have hadded := dealings_append a.id history moments
  rw [hdealings] at hadded
  cases h with
  | queued request inflight hof hnothing =>
    refine .refused true .connectionClosed ?_
    rw [hadded, hnothing]
    rfl
  | refused closed why hrefused =>
    exact .refused true why (by rw [hadded, hrefused]; rfl)
  | waiting request inflight written hof hwaiting hopen =>
    refine .finished true request inflight written (.failure .connectionClosed) hof ?_ ?_
    · rw [hadded, hwaiting]
      rfl
    · rw [decided_append_of_dealings hwaiting, hopen, houtcome]
      rfl
  | finished closed request inflight written completion hof hfinished hdecided =>
    exact .finished true request inflight written completion hof
      (by rw [hadded, hfinished]; rfl) (decided_append_of_some hfinished hdecided moments)
  | unwritten closed request inflight written hof hfinished hdecided =>
    exact .unwritten true request inflight written hof
      (by rw [hadded, hfinished]; rfl) (decided_append_of_some hfinished hdecided moments)

/-- Only a queued request can be taken by the loop, and it is the only one under its id. -/
theorem eq_queued {request : Request} {inflight : Inflight} {rest : List (Request × Inflight)}
    (h : Standing a p history) (hqueued : p.queued = (request, inflight) :: rest) :
    p = ⟨[(request, inflight)], none, false⟩ ∧ inflight.Of a ∧ dealings a.id history = [] := by
  cases h with
  | queued other entry hof hnothing =>
    cases hqueued
    exact ⟨rfl, hof, hnothing⟩
  | refused closed why hrefused => cases hqueued
  | waiting other entry written hof hwaiting hopen => cases hqueued
  | finished closed other entry written completion hof hfinished hdecided => cases hqueued
  | unwritten closed other entry written hof hfinished hdecided => cases hqueued

theorem turn (h : Standing a p history) (hturn : Turn a.id p moments q) :
    Standing a q (history ++ moments) := by
  cases hturn with
  | aside hdealings houtcome => exact h.aside hdealings houtcome
  | ended hdealings houtcome => exact h.ended hdealings houtcome
  | duplicate queued rest hqueued htracked =>
    obtain ⟨rfl, -, -⟩ := h.eq_queued hqueued
    exact absurd rfl htracked
  | accepted request inflight written rest hid hqueued hfree =>
    obtain ⟨rfl, hof, hnothing⟩ := h.eq_queued hqueued
    cases hqueued
    refine .waiting request inflight written hof ?_ ?_
    · rw [dealings_append, hnothing]
      simp [dealings, Moment.about, hid]
    · rw [decided_append_of_dealings_nil hnothing]
      simp [decided, outcome, Moment.registers, Moment.decides, hid]
  | unwritten request inflight written rest hqueued hfree hdealings hdecided =>
    obtain ⟨rfl, hof, hnothing⟩ := h.eq_queued hqueued
    cases hqueued
    refine .unwritten true request inflight written hof ?_ ?_
    · rw [dealings_append, hnothing, hdealings]
      rfl
    · rw [decided_append_of_dealings_nil hnothing]
      exact hdecided
  | responded inflight completion htracked hdealings houtcome =>
    cases h with
    | queued other entry hof hnothing => cases htracked
    | refused closed why hrefused => cases htracked
    | waiting request entry written hof hwaiting hopen =>
      cases htracked
      refine .finished false request inflight written completion hof ?_ ?_
      · rw [dealings_append, hwaiting, hdealings]
        rfl
      · rw [decided_append_of_dealings hwaiting, hopen, houtcome]
        rfl
    | finished closed other entry written ended hof hfinished hdecided => cases htracked
    | unwritten closed other entry written hof hfinished hdecided => cases htracked

/-- What is registered for a call is the call's, and has ended if the loop has. -/
theorem of_registered (h : Standing a p history) {request : Request} {inflight : Inflight}
    {written : List UInt8}
    (hmem : .registered request inflight written ∈ dealings a.id history) :
    inflight.Of a ∧ (p.closed = true →
      ∃ completion, .finished a.id inflight completion ∈ dealings a.id history) := by
  cases h with
  | queued other entry hof hdealings => simp [hdealings] at hmem
  | refused closed why hdealings => simp [hdealings] at hmem
  | waiting other entry sent hof hdealings _ =>
    simp only [hdealings, List.mem_cons, Moment.registered.injEq, reduceCtorEq, List.not_mem_nil,
      or_false] at hmem
    obtain ⟨-, rfl, -⟩ := hmem
    refine ⟨hof, ?_⟩
    intro hclosed
    cases hclosed
  | finished closed other entry sent completion hof hdealings _ =>
    simp only [hdealings, List.mem_cons, Moment.registered.injEq, reduceCtorEq, List.not_mem_nil,
      or_false] at hmem
    obtain ⟨-, rfl, -⟩ := hmem
    exact ⟨hof, fun _ => ⟨completion, by simp [hdealings]⟩⟩
  | unwritten closed other entry sent hof hdealings _ =>
    simp only [hdealings, List.mem_cons, Moment.registered.injEq, reduceCtorEq, List.not_mem_nil,
      or_false] at hmem
    obtain ⟨-, rfl, -⟩ := hmem
    exact ⟨hof, fun _ => ⟨.failure .connectionClosed, by simp [hdealings]⟩⟩

/-- What has ended for a call has been registered for it. -/
theorem of_finished (h : Standing a p history) {id : RequestId} {inflight : Inflight}
    {completion : Completion}
    (hmem : .finished id inflight completion ∈ dealings a.id history) :
    inflight.Of a ∧
      ∃ request written, .registered request inflight written ∈ dealings a.id history := by
  cases h with
  | queued other entry hof hdealings => simp [hdealings] at hmem
  | refused closed why hdealings => simp [hdealings] at hmem
  | waiting other entry sent hof hdealings _ => simp [hdealings] at hmem
  | finished closed request entry written ended hof hdealings _ =>
    simp only [hdealings, List.mem_cons, Moment.finished.injEq, reduceCtorEq, List.not_mem_nil,
      or_false, false_or] at hmem
    obtain ⟨-, rfl, -⟩ := hmem
    exact ⟨hof, request, written, by simp [hdealings]⟩
  | unwritten closed request entry written hof hdealings _ =>
    simp only [hdealings, List.mem_cons, Moment.finished.injEq, reduceCtorEq, List.not_mem_nil,
      or_false, false_or] at hmem
    obtain ⟨-, rfl, -⟩ := hmem
    exact ⟨hof, request, written, by simp [hdealings]⟩

/-- A call whose request is not registered has returned an error, or its request is queued. -/
theorem of_unregistered (h : Standing a p history)
    (hnone : ∀ request inflight written,
      .registered request inflight written ∉ dealings a.id history) :
    (∃ why, dealings a.id history = [.answered a.id (.error why)]) ∨
      (p.closed = false ∧ p.queued ≠ [] ∧ dealings a.id history = []) := by
  cases h with
  | queued request inflight _ hdealings =>
    exact .inr ⟨rfl, List.cons_ne_nil _ _, hdealings⟩
  | refused closed why hdealings => exact .inl ⟨why, hdealings⟩
  | waiting request inflight written _ hdealings _ =>
    exact absurd (by simp [hdealings]) (hnone request inflight written)
  | finished closed request inflight written completion _ hdealings _ =>
    exact absurd (by simp [hdealings]) (hnone request inflight written)
  | unwritten closed request inflight written _ hdealings _ =>
    exact absurd (by simp [hdealings]) (hnone request inflight written)

/-- A call's request is registered once and finished once. -/
theorem once (h : Standing a p history) :
    ((dealings a.id history).filterMap Moment.registered?).length ≤ 1 ∧
      ((dealings a.id history).filterMap Moment.finished?).length ≤ 1 := by
  cases h with
  | queued request inflight _ hdealings =>
    rw [hdealings]
    exact ⟨Nat.zero_le 1, Nat.zero_le 1⟩
  | refused closed why hdealings =>
    rw [hdealings]
    exact ⟨Nat.zero_le 1, Nat.zero_le 1⟩
  | waiting request inflight written _ hdealings _ =>
    rw [hdealings]
    exact ⟨Nat.le_refl 1, Nat.zero_le 1⟩
  | finished closed request inflight written completion _ hdealings _ =>
    rw [hdealings]
    exact ⟨Nat.le_refl 1, Nat.le_refl 1⟩
  | unwritten closed request inflight written _ hdealings _ =>
    rw [hdealings]
    exact ⟨Nat.le_refl 1, Nat.le_refl 1⟩

end Standing

end RemoteEval
