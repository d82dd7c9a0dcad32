import RemoteEval.Dialogue
import RemoteEval.Proofs.Client.Delivery
import RemoteEval.Proofs.Client.Refusals
import RemoteEval.Proofs.CommandLine.Arguments

/-!
One request at a time. If nothing waits and nothing is tracked when a call comes, and nobody else
calls, then the client does one thing after another for it: the line is written, the call returns,
the ticket is resolved; or the call is refused. A call has a stage that it has come to, and every
step leaves it there or takes it on.
-/
namespace RemoteEval

open scoped List

def Step.unasked : Step → Bool
  | .submit _ => false
  | .query _ => false
  | _ => true

/-- What is seen of an effect that marks how far a request is: a line is written, a call returns, a
ticket is resolved. -/
def Effect.mark? : Effect → Option Effect
  | .wrote bytes => some (.wrote bytes)
  | .answered id result => some (.answered id result)
  | .resolved id completion => some (.resolved id completion)
  | _ => none

def marks (effects : List Effect) : List Effect := effects.filterMap Effect.mark?

theorem marks_append (first second : List Effect) :
    marks (first ++ second) = marks first ++ marks second :=
  List.filterMap_append

theorem Effect.eq_of_mark? {effect mark : Effect} (h : effect.mark? = some mark) :
    effect = mark := by
  cases effect <;> cases h <;> rfl

theorem mem_marks {effects : List Effect} {mark : Effect} (h : mark ∈ marks effects) :
    mark ∈ effects := by
  obtain ⟨effect, heffect, hmark⟩ := List.mem_filterMap.1 h
  exact Effect.eq_of_mark? hmark ▸ heffect

theorem answered_mem_marks {effects : List Effect} {id : RequestId} {result : Except Error Unit} :
    .answered id result ∈ marks effects ↔ .answered id result ∈ effects :=
  ⟨mem_marks, fun h => List.mem_filterMap.2 ⟨_, h, rfl⟩⟩

/-- Whatever looks at marks only finds the same among the marks. -/
theorem findSome?_marks {β : Type} {thing : Effect → Option β}
    (hthing : ∀ effect, effect.mark? = none → thing effect = none) (effects : List Effect) :
    (marks effects).findSome? thing = effects.findSome? thing := by
  rw [← List.head?_filterMap, ← List.head?_filterMap, marks, List.filterMap_filterMap]
  congr 1
  refine List.filterMap_congr ?_
  intro effect _
  cases hmark : effect.mark? with
  | none => exact (hthing effect hmark).symm
  | some mark =>
    rw [Option.bind_some, Effect.eq_of_mark? hmark]

theorem answerIn?_marks (id : RequestId) (effects : List Effect) :
    answerIn? id (marks effects) = answerIn? id effects := by
  refine findSome?_marks ?_ effects
  intro effect heffect
  cases effect <;> first | rfl | cases heffect

theorem completionIn?_marks (id : RequestId) (effects : List Effect) :
    completionIn? id (marks effects) = completionIn? id effects := by
  refine findSome?_marks ?_ effects
  intro effect heffect
  cases effect <;> first | rfl | cases heffect

/-- What a call has been told it stays told. -/
theorem answerIn?_append {id : RequestId} {first : List Effect} {result : Except Error Unit}
    (h : answerIn? id first = some result) (second : List Effect) :
    answerIn? id (first ++ second) = some result := by
  unfold answerIn? at h ⊢
  rw [List.findSome?_append, h]
  rfl

theorem mem_of_answerIn? {id : RequestId} {effects : List Effect} {result : Except Error Unit}
    (h : answerIn? id effects = some result) : .answered id result ∈ effects := by
  obtain ⟨effect, heffect, hanswer⟩ := List.exists_of_findSome?_eq_some h
  cases effect with
  | answered other told =>
    dsimp only at hanswer
    split at hanswer
    · next hid =>
      cases hanswer
      rwa [← hid]
    · cases hanswer
  | _ => cases hanswer

def Moment.mark? : Moment → Option Effect
  | .registered _ _ written => some (.wrote written)
  | .answered id result => some (.answered id result)
  | .finished id _ completion => some (.resolved id completion)
  | _ => none

namespace Client

theorem marks_ending (c : Client) (id : RequestId) (inflight : Inflight)
    (completion : Completion) :
    (c.ending id inflight completion).filterMap Effect.mark? = [.resolved id completion] := by
  have hcomplaint : (c.complaint inflight.origin completion).filterMap Effect.mark? = [] := by
    rw [List.filterMap_eq_nil_iff]
    intro effect heffect
    rcases mem_complaint heffect with ⟨text, rfl⟩ | ⟨message, rfl⟩ <;> rfl
  have hcalled : (if inflight.callbacks.wants completion then
      [Effect.callback id completion] else []).filterMap Effect.mark? = [] := by
    split <;> rfl
  have hreleased :
      (inflight.staged.toList.map (Effect.release id)).filterMap Effect.mark? = [] := by
    cases inflight.staged <;> rfl
  rw [ending, List.filterMap_append, List.filterMap_append, List.filterMap_append, hcomplaint,
    hcalled, hreleased]
  rfl

/-- The marks of a step are those of its moments. -/
theorem marks_step (c : Client) (s : Step) :
    marks (c.step s).2 = (c.happens s).filterMap Moment.mark? := by
  have hrun : marks (c.run [s]).2 = (c.history [s]).filterMap Moment.mark? := by
    refine c.filterMap_run [s] ?_ ?_
    · intro effect heffect
      cases effect <;> first | rfl | cases heffect
    · intro moment
      cases moment with
      | finished id inflight completion => exact c.marks_ending id inflight completion
      | _ => rfl
  simpa [run, history, andThen] using hrun

structure Idle (c : Client) : Prop where
  queue_nil : c.queue = []
  table_nil : c.table.entries = []

theorem Idle.closing {c : Client} (h : c.Idle) (ending : Ending) :
    c.closing ending = [.ended ending] := by
  rw [Client.closing, h.table_nil, h.queue_nil]
  rfl

/-- What a client does by itself when nothing waits: nothing that any request has part in, or it
hands a response to a request, or it ends. -/
inductive Alone (c d : Client) (moments : List Moment) : Prop where
  | quiet (htable : d.table = c.table) (hmarks : moments.filterMap Moment.mark? = [])
      (hshown : moments.flatMap c.shows = [])
  | responded (id : RequestId) (inflight : Inflight) (completion : Completion)
      (htracked : c.table.get? id = some inflight) (htable : d.table = c.table.erase id)
      (hmarks : moments.filterMap Moment.mark? = [.resolved id completion])
  | ended (ending : Ending) (htable : d.table = .empty) (hmoments : moments = c.closing ending)

theorem Change.alone {c d : Client} {s : Step} {moments : List Moment} (h : c.Change s moments d)
    (hunasked : s.unasked = true) (hqueue : c.queue = []) :
    d.queue = [] ∧ c.Alone d moments := by
  cases h with
  | aside connection hattempt herased => exact ⟨hqueue, .quiet rfl rfl rfl⟩
  | erased path => exact ⟨hqueue, .quiet rfl rfl rfl⟩
  | rejected | late | queued | asked => cases hunasked
  | listed n rest hfront => cases hqueue.symm.trans hfront
  | duplicate request inflight rest scratch hfront hmem hwithout => cases hqueue.symm.trans hfront
  | accepted request inflight rest table connection hfront hentries =>
    cases hqueue.symm.trans hfront
  | unwritten request inflight rest written fault connection scratch hfront hsend hwithout =>
    cases hqueue.symm.trans hfront
  | ignored response connection => exact ⟨hqueue, .quiet rfl rfl rfl⟩
  | responded response id inflight completion connection scratch htracked hwithout =>
    exact ⟨hqueue, .responded id inflight completion htracked rfl rfl⟩
  | ended ending connection scratch hloop hopen hwithout => exact ⟨rfl, .ended ending rfl rfl⟩

/-- When nobody calls an idle client stays so, and no request has anything of what happens. -/
theorem Change.idle {c d : Client} {s : Step} {moments : List Moment} (h : c.Change s moments d)
    (hidle : c.Idle) (hunasked : s.unasked = true) :
    d.Idle ∧ moments.filterMap Moment.mark? = [] ∧ moments.flatMap c.shows = [] := by
  obtain ⟨hqueue, halone⟩ := h.alone hunasked hidle.queue_nil
  cases halone with
  | quiet htable hmarks hshown =>
    refine ⟨⟨hqueue, ?_⟩, hmarks, hshown⟩
    rw [htable]
    exact hidle.table_nil
  | responded id inflight completion htracked htable hmarks =>
    have hmem := Table.mem_of_get? htracked
    rw [hidle.table_nil] at hmem
    cases hmem
  | ended ending htable hmoments =>
    rw [hmoments, hidle.closing]
    refine ⟨⟨hqueue, ?_⟩, rfl, rfl⟩
    rw [htable]
    rfl

/-- The stage that the call `a` has come to with the client `c`, by the marks that are seen of it.
The client was `start` before it did anything. -/
inductive Stage (start c : Client) (a : Attempt) : List Effect → Prop where
  | queued (request : Request) (inflight : Inflight)
      (hchecked : start.checked a = .ok (request, inflight))
      (hqueue : c.queue = [.send request inflight]) (htable : c.table.entries = []) :
      Stage start c a []
  | refused (why : Error) (hwhy : why = .connectionClosed ∨ ∃ fault, why = .staging fault)
      (hidle : c.Idle) : Stage start c a [.answered a.id (.error why)]
  | broken (written : List UInt8) (hfront : written <+: start.frame a) (hidle : c.Idle) :
      Stage start c a [.wrote written, .resolved a.id (.failure .connectionClosed),
        .answered a.id (.error .connectionClosed)]
  | tracked (entry : Request × Inflight) (hchecked : start.checked a = .ok entry)
      (hqueue : c.queue = []) (htable : c.table.entries = [(a.id, entry.2)]) :
      Stage start c a [.wrote (start.frame a), .answered a.id (.ok ())]
  | ended (entry : Request × Inflight) (completion : Completion)
      (hchecked : start.checked a = .ok entry) (hidle : c.Idle) :
      Stage start c a
        [.wrote (start.frame a), .answered a.id (.ok ()), .resolved a.id completion]

namespace Stage

variable {start c d : Client} {a : Attempt} {seen : List Effect}

/-- A request that waits is registered and written, or refused when it is not or the loop ends. -/
theorem of_queued {s : Step} {moments : List Moment} (h : c.Change s moments d)
    (hunasked : s.unasked = true) {request : Request} {inflight : Inflight}
    (hchecked : start.checked a = .ok (request, inflight))
    (hqueue : c.queue = [.send request inflight]) (htable : c.table.entries = []) :
    Stage start d a (moments.filterMap Moment.mark?) := by
  have hid := checked_id hchecked
  have hframe := frame_of_checked hchecked
  dsimp only at hframe
  cases h with
  | aside connection hattempt herased => exact .queued request inflight hchecked hqueue htable
  | erased path => exact .queued request inflight hchecked hqueue htable
  | rejected | late | queued | asked => cases hunasked
  | listed n rest hfront => cases hqueue.symm.trans hfront
  | duplicate other found rest scratch hfront hmem hwithout =>
    rw [Table.ids, htable] at hmem
    cases hmem
  | accepted other found rest table connection hfront hentries =>
    cases hqueue.symm.trans hfront
    rw [htable] at hentries
    have htracked := Stage.tracked (c := { c with table, connection, queue := [] }) _ hchecked rfl
      (hid ▸ hentries)
    rw [hframe, ← hid] at htracked
    exact htracked
  | unwritten other found rest written fault connection scratch hfront hsend hwithout =>
    cases hqueue.symm.trans hfront
    have hcut := Connection.written_prefix hsend
    rw [← hframe] at hcut
    have hclosing := Idle.closing (c := { c with queue := [] }) ⟨rfl, htable⟩ (.io fault)
    rw [hclosing, hid]
    exact .broken written hcut ⟨rfl, rfl⟩
  | ignored response connection => exact .queued request inflight hchecked hqueue htable
  | responded response id found completion connection scratch htracked hwithout =>
    have hmem := Table.mem_of_get? htracked
    rw [htable] at hmem
    cases hmem
  | ended ending connection scratch hloop hopen hwithout =>
    have hclosing : c.closing ending =
        [.ended ending, .answered a.id (.error .connectionClosed)] := by
      rw [closing, htable, hqueue, ← hid]
      rfl
    rw [hclosing]
    exact .refused .connectionClosed (.inl rfl) ⟨rfl, rfl⟩

/-- A request that is tracked goes on being tracked until it ends. -/
theorem of_tracked {s : Step} {moments : List Moment} (h : c.Change s moments d)
    (hunasked : s.unasked = true) {entry : Request × Inflight}
    (hchecked : start.checked a = .ok entry) (hqueue : c.queue = [])
    (htable : c.table.entries = [(a.id, entry.2)]) :
    Stage start d a ([.wrote (start.frame a), .answered a.id (.ok ())] ++
      moments.filterMap Moment.mark?) := by
  obtain ⟨hempty, halone⟩ := h.alone hunasked hqueue
  cases halone with
  | quiet hsame hmarks hshown =>
    rw [hmarks]
    refine .tracked entry hchecked hempty ?_
    rw [hsame]
    exact htable
  | responded id inflight completion htracked herased hmarks =>
    have hmem := Table.mem_of_get? htracked
    rw [htable, List.mem_singleton, Prod.mk.injEq] at hmem
    obtain ⟨rfl, -⟩ := hmem
    rw [hmarks]
    refine .ended entry completion hchecked ⟨hempty, ?_⟩
    rw [herased]
    change c.table.entries.filter _ = []
    rw [htable]
    simp
  | ended ending hnone hmoments =>
    rw [hmoments, closing, htable, hqueue]
    refine .ended entry (.failure .connectionClosed) hchecked ⟨hempty, ?_⟩
    rw [hnone]
    rfl

/-- Every step that nobody asks for leaves the call at its stage or takes it on. -/
theorem step (h : Stage start c a seen) {s : Step} (hunasked : s.unasked = true) :
    Stage start (c.step s).1 a (seen ++ marks (c.step s).2) := by
  have hchange := c.step_change s
  have hquiet : c.Idle →
      (c.step s).1.Idle ∧ seen ++ (c.happens s).filterMap Moment.mark? = seen := by
    intro hidle
    obtain ⟨hstill, hmarks, -⟩ := hchange.idle hidle hunasked
    rw [hmarks, List.append_nil]
    exact ⟨hstill, rfl⟩
  rw [marks_step]
  cases h with
  | queued request inflight hchecked hqueue htable =>
    exact of_queued hchange hunasked hchecked hqueue htable
  | refused why hwhy hidle =>
    obtain ⟨hstill, hmarks⟩ := hquiet hidle
    rw [hmarks]
    exact .refused why hwhy hstill
  | broken written hfront hidle =>
    obtain ⟨hstill, hmarks⟩ := hquiet hidle
    rw [hmarks]
    exact .broken written hfront hstill
  | tracked entry hchecked hqueue htable => exact of_tracked hchange hunasked hchecked hqueue htable
  | ended entry completion hchecked hidle =>
    obtain ⟨hstill, hmarks⟩ := hquiet hidle
    rw [hmarks]
    exact .ended entry completion hchecked hstill

/-- The remote end has no part in the stage of a call. -/
theorem connection (h : Stage start c a seen) (connection : Connection) :
    Stage start { c with connection } a seen := by
  cases h with
  | queued request inflight hchecked hqueue htable =>
    exact .queued request inflight hchecked hqueue htable
  | refused why hwhy hidle => exact .refused why hwhy ⟨hidle.1, hidle.2⟩
  | broken written hfront hidle => exact .broken written hfront ⟨hidle.1, hidle.2⟩
  | tracked entry hchecked hqueue htable => exact .tracked entry hchecked hqueue htable
  | ended entry completion hchecked hidle =>
    exact .ended entry completion hchecked ⟨hidle.1, hidle.2⟩

/-- A call that comes to an idle client is queued, or refused because its text cannot be staged or
because the loop has ended. -/
theorem submit (hidle : c.Idle) (hchecked : c.checked = start.checked)
    (hresolves : (spec a).Resolves) : Stage start (c.step (.submit a)).1 a
      (marks (c.step (.submit a)).2) := by
  have hchange := c.step_change (.submit a)
  rw [marks_step]
  generalize c.happens (.submit a) = moments at hchange
  generalize (c.step (.submit a)).1 = d at hchange
  cases hchange with
  | aside connection hattempt herased => cases hattempt
  | rejected a why hfails =>
    refine .refused why (.inr ?_) hidle
    obtain ⟨path, hpath⟩ := hresolves
    have hprepare : c.prepare a = .error why := by
      unfold checked at hfails
      cases hprepare : c.prepare a with
      | error other =>
        rw [hprepare] at hfails
        cases hfails
        rfl
      | ok prepared =>
        rw [hprepare] at hfails
        cases hfails
    simp only [prepare, hpath] at hprepare
    split at hprepare
    · cases hprepare
    · split at hprepare
      · next hstage =>
        cases hprepare
        obtain ⟨fault, -, hwhy⟩ := Scratch.stage_error_iff.1 hstage
        exact ⟨_, hwhy⟩
      · cases hprepare
  | late a request inflight hpasses hclosed => exact .refused _ (.inl rfl) hidle
  | queued a request inflight scratch hpasses hopen hhas hdir =>
    rw [hchecked] at hpasses
    refine .queued request inflight hpasses ?_ hidle.table_nil
    rw [hidle.queue_nil]
    rfl
  | ended ending connection scratch hloop hopen hwithout => cases hloop

/-- At every stage there is one request at most. -/
theorem length_le_one (h : Stage start c a seen) : c.table.size + c.queue.length ≤ 1 := by
  cases h with
  | queued request inflight hchecked hqueue htable => simp [Table.size, hqueue, htable]
  | refused why hwhy hidle => simp [Table.size, hidle.queue_nil, hidle.table_nil]
  | broken written hfront hidle => simp [Table.size, hidle.queue_nil, hidle.table_nil]
  | tracked entry hchecked hqueue htable => simp [Table.size, hqueue, htable]
  | ended entry completion hchecked hidle => simp [Table.size, hidle.queue_nil, hidle.table_nil]

/-- A call whose request does not wait any more has returned. -/
theorem answered {seen : List Effect}
    (h : Stage start c a (marks seen)) (hqueue : c.queue = []) :
    (answerIn? a.id seen).isSome := by
  rw [← answerIn?_marks]
  generalize marks seen = shown at h
  cases h with
  | queued request inflight hchecked hfront htable => cases hqueue.symm.trans hfront
  | refused why hwhy hidle => simp [answerIn?]
  | broken written hfront hidle => simp [answerIn?]
  | tracked entry hchecked hqueue htable => simp [answerIn?]
  | ended entry completion hchecked hidle => simp [answerIn?]

end Stage

/-- Over steps that nobody asks for a call goes on from its stage. -/
theorem Stage.run {start c : Client} {a : Attempt} {seen : List Effect}
    (h : Stage start c a seen) {steps : List Step} (hunasked : ∀ s ∈ steps, s.unasked = true) :
    Stage start (c.run steps).1 a (seen ++ marks (c.run steps).2) := by
  induction steps generalizing c seen with
  | nil =>
    rw [Client.run, marks, List.filterMap_nil, List.append_nil]
    exact h
  | cons s rest ih =>
    rw [List.forall_mem_cons] at hunasked
    rw [Client.run, andThen_snd, marks_append, ← List.append_assoc]
    exact ih (h.step hunasked.1) hunasked.2

/-- While nobody calls an idle client stays so, and no request has anything of what happens. -/
theorem Idle.run {c : Client} (h : c.Idle) {steps : List Step}
    (hunasked : ∀ s ∈ steps, s.unasked = true) :
    (c.run steps).1.Idle ∧ marks (c.run steps).2 = [] := by
  induction steps generalizing c with
  | nil => exact ⟨h, rfl⟩
  | cons s rest ih =>
    rw [List.forall_mem_cons] at hunasked
    obtain ⟨hstill, hmarks, -⟩ := (c.step_change s).idle h hunasked.1
    obtain ⟨hidle, hrest⟩ := ih hstill hunasked.2
    refine ⟨hidle, ?_⟩
    rw [Client.run, andThen_snd, marks_append, marks_step, hmarks]
    exact hrest

theorem wrote_marks (effects : List Effect) :
    (marks effects).filterMap Effect.wrote? = effects.filterMap Effect.wrote? := by
  rw [marks, List.filterMap_filterMap]
  congr 1
  funext effect
  cases effect <;> rfl

/-- What is written of a line that fails: nothing, or a front of it, which is all of it if only the
flush fails. -/
def FrontOf (line : List UInt8) (lines : List (List UInt8)) : Prop :=
  lines = [] ∨ ∃ bytes, lines = [bytes] ∧ bytes <+: line

inductive Wrote (start : Client) (a : Attempt) (seen : List Effect) : Prop where
  | nothing (hlines : seen.filterMap Effect.wrote? = []) (hanswer : answerIn? a.id seen = none)
  | whole (hpassed : ∃ entry, start.checked a = .ok entry)
      (hlines : seen.filterMap Effect.wrote? = [start.frame a])
      (hanswer : answerIn? a.id seen = some (.ok ()))
  | part (why : Error) (hpart : FrontOf (start.frame a) (seen.filterMap Effect.wrote?))
      (hcause : seen.filterMap Effect.wrote? ≠ [] → why = .connectionClosed)
      (hanswer : answerIn? a.id seen = some (.error why))
      (hmem : .answered a.id (.error why) ∈ seen)

theorem Stage.wrote {start c : Client} {a : Attempt} {seen : List Effect}
    (h : Stage start c a seen) : Wrote start a seen := by
  cases h with
  | queued request inflight hchecked hqueue htable => exact .nothing rfl rfl
  | refused why hwhy hidle =>
    exact .part why (.inl rfl) (absurd rfl) (by simp [answerIn?]) (List.mem_singleton_self _)
  | broken written hfront hidle =>
    exact .part .connectionClosed (.inr ⟨written, rfl, hfront⟩) (fun _ => rfl)
      (by simp [answerIn?]) (by simp)
  | tracked entry hchecked hqueue htable => exact .whole ⟨entry, hchecked⟩ rfl (by simp [answerIn?])
  | ended entry completion hchecked hidle =>
    exact .whole ⟨entry, hchecked⟩ rfl (by simp [answerIn?])

end Client

end RemoteEval
