import RemoteEval.Proofs.Client.Listing
import RemoteEval.Proofs.Client.Reading
import RemoteEval.Proofs.Client.Settling

/-!
A dialogue as a run of its client. The client goes on between the moves of the remote end until it
has nothing to do, so whatever is said is heard, up to the end of the loop. When the loop has ended
it hears nothing more.
-/
namespace RemoteEval

/-- The pieces that come in by some moves of the remote end, which says nothing once it has hung
up. -/
def said : List Move → List (List UInt8)
  | [] => []
  | .say bytes :: moves => pieces pipeCapacity bytes ++ said moves
  | .hangUp :: _ => []

theorem arrivals_replicate_receive (k : Nat) (steps : List Step) :
    arrivals false (List.replicate k .receive ++ steps) = arrivals false steps := by
  induction k with
  | zero => rfl
  | succ k ih => exact ih

theorem arrivals_arrive (came : List (List UInt8)) (steps : List Step) :
    arrivals false (came.map .arrive ++ steps) = came ++ arrivals false steps := by
  induction came with
  | nil => rfl
  | cons piece rest ih => exact congrArg (piece :: ·) ih

def outcomeOf (id : RequestId) (effects : List Effect) : Outcome :=
  match answerIn? id effects with
  | some (.error why) => .refused why
  | _ => (completionIn? id effects).elim .unanswered .completed

theorem outcomeOf_of_error {id : RequestId} {effects : List Effect} {why : Error}
    (h : answerIn? id effects = some (.error why)) : outcomeOf id effects = .refused why := by
  simp only [outcomeOf, h]

theorem outcomeOf_of_ok {id : RequestId} {effects : List Effect}
    (h : answerIn? id effects = some (.ok ())) :
    outcomeOf id effects = (completionIn? id effects).elim .unanswered .completed := by
  simp only [outcomeOf, h]

namespace Client

theorem run_arrive {c : Client} (hopen : c.connection.outputClosed = false)
    (came : List (List UInt8)) :
    c.run (came.map .arrive) =
      ({ c with connection := { c.connection with unread := c.connection.unread ++ came } },
        []) := by
  induction came generalizing c with
  | nil => simp [run]
  | cons piece rest ih =>
    have hpiece : c.connection.arrive piece =
        { c.connection with unread := c.connection.unread ++ [piece] } := by
      simp [Connection.arrive, hopen]
    have hrest := ih (c := { c with connection := c.connection.arrive piece })
      (by rw [hpiece]; exact hopen)
    rw [List.map_cons, run, step, andThen, hrest, hpiece]
    simp

/-- What the remote end says comes in and is read. -/
theorem hear_say {c : Client} (h : c.Ready) (bytes : List UInt8) :
    ∃ k, let steps := (pieces pipeCapacity bytes).map .arrive ++ List.replicate k .receive
      c.hear (.say bytes) = c.run steps ∧ c.CaughtUp steps ∧
        ((c.run steps).1.Ready ∨ (c.run steps).1.Ended) ∧
        (c.connection.Live → (c.run steps).1.Ready ∧ (c.run steps).1.connection.Live) := by
  let came := pieces pipeCapacity bytes
  let d : Client := { c with connection := c.connection.deliver bytes }
  have hcame : c.run (came.map .arrive) = (d, []) := by
    simp [run_arrive h.output_open, d, came, Connection.deliver, h.unread_nil]
  obtain ⟨k, hsettle, hreads⟩ := settle_reads (c := d) h.running h.queue_nil
  have hrun : c.run (came.map .arrive ++ List.replicate k .receive) =
      d.run (List.replicate k .receive) := by
    rw [run_append, hcame]
    rfl
  refine ⟨k, ?_, ?_, ?_, ?_⟩
  · rw [hrun, ← hsettle]
    rfl
  · refine CaughtUp.append h.running ?_ ?_
    · rw [hcame]
      exact h.running
    · rw [hcame]
      exact hreads.caughtUp
  · rw [hrun]
    exact hreads.settled
  · rw [hrun]
    exact fun hlive => hreads.live ⟨hlive.output_open, hlive.not_atEnd, hlive.readable⟩

/-- When the remote end hangs up the loop ends. -/
theorem hear_hangUp {c : Client} (h : c.Ready) :
    ∃ k, let steps := .dropRemote :: List.replicate k .receive
      c.hear .hangUp = c.run steps ∧ c.CaughtUp steps ∧ (c.run steps).1.Ended := by
  let d : Client := { c with connection := c.connection.dropRemote }
  obtain ⟨k, hsettle, hreads⟩ := settle_reads (c := d) h.running h.queue_nil
  have hrun : c.run (.dropRemote :: List.replicate k .receive) =
      d.run (List.replicate k .receive) := rfl
  refine ⟨k, ?_, ?_, ?_⟩
  · rw [hrun, ← hsettle]
    rfl
  · exact .behind (s := .dropRemote) h.running hreads.caughtUp
  · rw [hrun]
    exact hreads.ends rfl

theorem hearAll_of_ended {c : Client} (h : c.Ended) (moves : List Move) :
    (c.hearAll moves).2 = [] := by
  induction moves generalizing c with
  | nil => rfl
  | cons move rest ih =>
    have hnothing {d : Client} (hd : d.Ended) : d.settle = (d, []) := by
      rw [settle_of_queue_nil hd.queue_nil, receiveUpTo_of_closed hd.closed]
    have hmove : (c.hear move).1.Ended ∧ (c.hear move).2 = [] := by
      cases move with
      | say bytes =>
        rw [hear, hnothing (d := { c with connection := c.connection.deliver bytes }) ⟨h.1, h.2⟩]
        exact ⟨⟨h.1, h.2⟩, rfl⟩
      | hangUp =>
        rw [hear, hnothing (d := { c with connection := c.connection.dropRemote }) ⟨h.1, h.2⟩]
        exact ⟨⟨h.1, h.2⟩, rfl⟩
    rw [hearAll, andThen_snd, ih hmove.1, hmove.2]
    rfl

/-- Steps that a client takes behind others while the remote end makes moves. All that is said
comes in and is taken, up to the end of the loop, which comes when the remote end hangs up; nothing
else ends it as long as the connection goes on. -/
structure Hears (c : Client) (before : List Step) (moves : List Move) (steps : List Step) :
    Prop where
  unasked : ∀ s ∈ steps, s.unasked = true
  effects_eq : (c.run (before ++ steps)).2 =
    (c.run before).2 ++ ((c.run before).1.hearAll moves).2
  caughtUp : c.CaughtUp (before ++ steps)
  arrivals_prefix : arrivals false steps <+: said moves
  arrivals_eq : c.connection.Live → arrivals false steps = said moves
  ends : .hangUp ∈ moves → (c.run (before ++ steps)).1.closed = true
  goes : c.connection.Live → .hangUp ∉ moves → (c.run (before ++ steps)).1.closed = false

/-- What a client hears by itself it hears behind other steps, if the loop has not ended. -/
theorem Hears.behind {c : Client} (hopen : c.closed = false) {before : List Step}
    (hcaught : c.CaughtUp before) (hsettled : (c.run before).1.Ready ∨ (c.run before).1.Ended)
    (hlive : c.connection.Live → (c.run before).1.Ready ∧ (c.run before).1.connection.Live)
    {moves : List Move}
    (hready : (c.run before).1.Ready → ∃ steps, (c.run before).1.Hears [] moves steps) :
    ∃ steps, c.Hears before moves steps := by
  rcases hsettled with hruns | hended
  · obtain ⟨steps, hhears⟩ := hready hruns
    have hrun : c.run (before ++ steps) = andThen (c.run before) fun c => c.run steps :=
      c.run_append before steps
    refine ⟨steps, hhears.unasked, ?_, ?_, hhears.arrivals_prefix, ?_, ?_, ?_⟩
    · rw [hrun, andThen_snd]
      exact congrArg _ hhears.effects_eq
    · exact .append hopen hruns.running hhears.caughtUp
    · exact fun hgoes => hhears.arrivals_eq (hlive hgoes).2
    · rw [hrun]
      exact hhears.ends
    · rw [hrun]
      exact fun hgoes => hhears.goes (hlive hgoes).2
  · have hnot : ¬ c.connection.Live := by
      intro hgoes
      cases hended.closed.symm.trans (hlive hgoes).1.running
    refine ⟨[], by simp, ?_, ?_, List.nil_prefix, fun hgoes => absurd hgoes hnot, fun _ => ?_,
      fun hgoes => absurd hgoes hnot⟩
    · rw [List.append_nil, hearAll_of_ended hended, List.append_nil]
    · rwa [List.append_nil]
    · rw [List.append_nil]
      exact hended.closed

theorem Ready.hears {c : Client} (h : c.Ready) (moves : List Move) :
    ∃ steps, c.Hears [] moves steps := by
  induction moves generalizing c with
  | nil =>
    exact ⟨[], by simp, rfl, .nil h.spent, List.prefix_refl _, fun _ => rfl, by simp,
      fun _ _ => h.running⟩
  | cons move rest ih =>
    cases move with
    | hangUp =>
      obtain ⟨k, hhear, hcaught, hended⟩ := hear_hangUp h
      refine ⟨.dropRemote :: List.replicate k .receive, ?_, ?_, hcaught, ?_, fun _ => rfl, ?_, ?_⟩
      · simp [Step.unasked]
      · change _ = (c.hearAll (.hangUp :: rest)).2
        rw [hearAll, andThen_snd, hhear, hearAll_of_ended hended, List.append_nil, List.nil_append]
      · exact List.prefix_refl _
      · exact fun _ => hended.closed
      · exact fun _ hnot => absurd List.mem_cons_self hnot
    | say bytes =>
      obtain ⟨k, hhear, hcaught, hsettled, hlive⟩ := hear_say h bytes
      obtain ⟨second, hsecond⟩ :=
        Hears.behind h.running hcaught hsettled hlive fun hready => ih hready
      have hcame : arrivals false (((pieces pipeCapacity bytes).map .arrive ++
          List.replicate k .receive) ++ second) =
            pieces pipeCapacity bytes ++ arrivals false second := by
        rw [List.append_assoc, arrivals_arrive, arrivals_replicate_receive]
      refine ⟨_ ++ second, ?_, ?_, hsecond.caughtUp, ?_, ?_, ?_, ?_⟩
      · rw [List.forall_mem_append]
        refine ⟨?_, hsecond.unasked⟩
        rw [List.forall_mem_append]
        simp [Step.unasked]
      · change _ = (c.hearAll (.say bytes :: rest)).2
        rw [List.nil_append, hsecond.effects_eq, hearAll, andThen_snd, hhear]
      · rw [hcame]
        exact (List.prefix_append_right_inj _).2 hsecond.arrivals_prefix
      · intro hgoes
        rw [hcame, hsecond.arrivals_eq hgoes]
        rfl
      · intro hmem
        exact hsecond.ends (by simpa using hmem)
      · intro hgoes hnot
        exact hsecond.goes hgoes (by simpa using hnot)

inductive Calls (c : Client) (a : Attempt) : Prop where
  | refused (why : Error) (hsame : (c.submit a).1 = c)
      (hanswer : answerIn? a.id (c.submit a).2 = some (.error why))
  | queued (request : Request) (inflight : Inflight) (hid : request.id = a.id)
      (hanswer : answerIn? a.id (c.submit a).2 = none)
      (hqueue : (c.submit a).1.queue = [.send request inflight])
      (hopen : (c.submit a).1.closed = false)
      (hconnection : (c.submit a).1.connection = c.connection)

theorem submit_calls {c : Client} (hidle : c.Idle) (hopen : c.closed = false) (a : Attempt) :
    c.Calls a := by
  have hchange := c.step_change (.submit a)
  have hmarks := c.marks_step (.submit a)
  change c.Change (.submit a) _ (c.submit a).1 at hchange
  change marks (c.submit a).2 = _ at hmarks
  generalize c.happens (.submit a) = moments at hchange hmarks
  generalize hout : (c.submit a).1 = d at hchange
  cases hchange with
  | aside connection hattempt herased => cases hattempt
  | rejected a why hchecked =>
    refine .refused why hout ?_
    rw [← answerIn?_marks, hmarks]
    simp [Moment.mark?, answerIn?]
  | late a request inflight hchecked hclosed => cases hopen.symm.trans hclosed
  | queued a request inflight scratch hchecked hrunning hhas hdir =>
    refine .queued request inflight (checked_id hchecked) ?_ ?_ ?_ ?_
    · rw [← answerIn?_marks, hmarks]
      rfl
    · rw [hout, hidle.queue_nil]
      rfl
    · rw [hout]
      exact hopen
    · rw [hout]
  | ended ending connection scratch hloop hrunning hwithout => cases hloop

/-- A loop that tells its only call that the request is registered goes on. -/
theorem take_told {c : Client} {request : Request} {inflight : Inflight}
    (hqueue : c.queue = [.send request inflight]) (hopen : c.closed = false)
    (htold : answerIn? request.id c.take.2 = some (.ok ())) :
    c.take.1.closed = false ∧ (c.connection.Live → c.take.1.connection.Live) := by
  rw [← answerIn?_marks] at htold
  change answerIn? request.id (marks (c.step .take).2) = _ at htold
  rw [marks_step, happens, taking, hqueue] at htold
  rw [take, hqueue]
  dsimp only at htold ⊢
  cases registration { c with queue := [] } request inflight with
  | duplicate text hmem hregister hmoments =>
    rw [hmoments] at htold
    simp [Moment.mark?, answerIn?] at htold
  | accepted table written connection hfree hentries hsend hregister hmoments =>
    rw [hregister]
    exact ⟨hopen, fun hlive => hlive.write hsend⟩
  | unwritten written fault connection hfree hsend hregister hmoments =>
    rw [hmoments] at htold
    simp [Moment.mark?, answerIn?] at htold

/-- A loop with one request in its queue takes that first. -/
theorem settle_taken {c : Client} {request : Request} {inflight : Inflight}
    (hqueue : c.queue = [.send request inflight]) :
    ∃ k, c.settle = c.run (.take :: List.replicate k .receive) ∧
      (c.take.1.closed = false → c.take.1.Reads (List.replicate k .receive)) := by
  have hsettle : c.settle =
      andThen c.take fun d => receiveUpTo (d.connection.pending + 1) d := by
    rw [settle, takeAll, hqueue, List.map_singleton]
    simp [run, step, andThen]
  rw [hsettle]
  cases hclosed : c.take.1.closed with
  | true =>
    refine ⟨0, ?_, by rintro ⟨⟩⟩
    rw [andThen, receiveUpTo_of_closed hclosed]
    rfl
  | false =>
    obtain ⟨k, hrun, hreads⟩ :=
      receiveUpTo_reads hclosed (take_queue_nil hqueue) (Nat.lt_succ_self _)
    refine ⟨k, ?_, fun _ => hreads⟩
    rw [andThen, hrun]
    rfl

structure Told (c : Client) (a : Attempt) (steps : List Step) : Prop where
  taken : ∃ rest, steps = .take :: rest
  registered : .answered a.id (.ok ()) ∈ (c.run [.submit a, .take]).2
  caughtUp : c.CaughtUp (.submit a :: steps)
  settled : (c.run (.submit a :: steps)).1.Ready ∨ (c.run (.submit a :: steps)).1.Ended
  live : c.connection.Live →
    (c.run (.submit a :: steps)).1.Ready ∧ (c.run (.submit a :: steps)).1.connection.Live

/-- The steps of a loop that goes on behind a call until it has nothing to do. Then the call has
returned. -/
structure Sends (c : Client) (a : Attempt) (steps : List Step) : Prop where
  unasked : ∀ s ∈ steps, s.unasked = true
  run_eq : c.run (.submit a :: steps) = andThen (c.submit a) settle
  answered : (answerIn? a.id (andThen (c.submit a) settle).2).isSome
  arrivals_append : ∀ more, arrivals false (steps ++ more) = arrivals false more
  told : answerIn? a.id (andThen (c.submit a) settle).2 = some (.ok ()) → c.Told a steps

theorem submit_sends {c : Client} (hidle : c.Idle) (hopen : c.closed = false) {a : Attempt}
    (hresolves : (spec a).Resolves) : ∃ steps, c.Sends a steps := by
  have hstage : Stage c (c.submit a).1 a (marks (c.submit a).2) :=
    Stage.submit hidle rfl hresolves
  cases submit_calls hidle hopen a with
  | refused why hsame hanswer =>
    obtain ⟨k, hsettle, -⟩ := settle_reads hopen hidle.queue_nil
    have htold : answerIn? a.id (andThen (c.submit a) settle).2 = some (.error why) :=
      answerIn?_append hanswer _
    refine ⟨List.replicate k .receive, ?_, ?_, ?_, arrivals_replicate_receive k, ?_⟩
    · simp [Step.unasked]
    · rw [run, step, andThen, andThen, hsame, hsettle]
    · rw [htold]
      rfl
    · rw [htold]
      rintro ⟨⟩
  | queued request inflight hid hnone hqueue hrunning hconnection =>
    generalize hcalled : (c.submit a).1 = d at hstage hqueue hrunning hconnection
    obtain ⟨k, hsettle, hreads⟩ := settle_taken hqueue
    -- What the call is told it is told when the loop takes its request.
    have htaken : Stage c d.take.1 a (marks ((c.submit a).2 ++ d.take.2)) := by
      rw [marks_append]
      exact hstage.step (s := .take) rfl
    obtain ⟨result, hresult⟩ := Option.isSome_iff_exists.1 (htaken.answered (take_queue_nil hqueue))
    have htake : answerIn? request.id d.take.2 = some result := by
      rw [hid]
      rwa [answerIn?, List.findSome?_append, ← answerIn?, hnone, Option.none_or] at hresult
    have hanswer : answerIn? a.id (andThen (c.submit a) settle).2 = some result := by
      rw [andThen_snd, hcalled, hsettle, run, andThen_snd, ← List.append_assoc]
      exact answerIn?_append hresult _
    have hsubmitted : (c.step (.submit a)).1 = d := hcalled
    have hlast : (c.run (.submit a :: .take :: List.replicate k .receive)).1 =
        (d.take.1.run (List.replicate k .receive)).1 := by
      rw [run, andThen_fst, hsubmitted]
      rfl
    refine ⟨.take :: List.replicate k .receive, ?_, ?_, ?_, ?_, fun hok => ?_⟩
    · simp [Step.unasked]
    · rw [run, step, andThen, andThen, hcalled, hsettle]
    · rw [hanswer]
      rfl
    · exact arrivals_replicate_receive k
    · cases hanswer.symm.trans hok
      obtain ⟨hgoes, hlive⟩ := take_told hqueue hrunning htake
      have hall := hreads hgoes
      have htwo : (c.run [.submit a, .take]).2 = (c.submit a).2 ++ d.take.2 := by
        simp [run, step, andThen, hcalled]
      refine ⟨⟨_, rfl⟩, ?_, ?_, ?_, fun h => ?_⟩
      · rw [htwo]
        exact mem_of_answerIn? hresult
      · refine .behind hopen ?_
        rw [hsubmitted]
        exact .behind (s := .take) hrunning hall.caughtUp
      · rw [hlast]
        exact hall.settled
      · rw [hlast]
        rw [← hconnection] at h
        exact hall.live (hlive h)

/-- A dialogue about one call as a run. The call returns, and if its request is registered, then
the request hears all that the remote end says until the loop ends. -/
structure Converses (c : Client) (a : Attempt) (moves : List Move) (effects : List Effect)
    (steps : List Step) : Prop where
  unasked : ∀ s ∈ steps, s.unasked = true
  effects_eq : (c.run (.submit a :: steps)).2 = effects
  answered : (answerIn? a.id effects).isSome
  arrivals_prefix : arrivals false steps <+: said moves
  heard : answerIn? a.id effects = some (.ok ()) →
    firstFor a.id (heard a.id (c.history (.submit a :: steps))) =
      firstFor a.id (c.stream (.submit a :: steps))
  arrivals_eq : answerIn? a.id effects = some (.ok ()) → c.connection.Live →
    arrivals false steps = said moves
  ends : answerIn? a.id effects = some (.ok ()) → .hangUp ∈ moves →
    (c.run (.submit a :: steps)).1.closed = true
  goes : answerIn? a.id effects = some (.ok ()) → c.connection.Live → .hangUp ∉ moves →
    (c.run (.submit a :: steps)).1.closed = false

/-- The request of a call that is told so has been registered. -/
theorem exists_registered {c : Client} {steps : List Step} {id : RequestId}
    (h : .answered id (.ok ()) ∈ (c.run steps).2) :
    ∃ request inflight written, .registered request inflight written ∈ c.history steps ∧
      request.id = id := by
  obtain ⟨moment, hmem, hid⟩ :=
    List.mem_filterMap.1 (registered_of_answered_run (mem_history_of_answered h))
  cases moment with
  | registered request inflight written =>
    exact ⟨request, inflight, written, hmem, Option.some.inj hid⟩
  | _ => cases hid

/-- A request that is taken at once hears all that the loop takes. -/
theorem heard_of_taken {c : Client} {a : Attempt}
    (h : .answered a.id (.ok ()) ∈ (c.run [.submit a, .take]).2) (rest : List Step) :
    heard a.id (c.history (.submit a :: .take :: rest)) =
      responses (c.history (.submit a :: .take :: rest)) := by
  obtain ⟨request, inflight, written, hmem, hid⟩ := exists_registered h
  have hnone : responses (c.history [.submit a, .take]) = [] := by
    rw [history, history, history, List.append_nil, responses_append,
      c.responses_happens (by simp), responses_happens _ (by simp)]
    rfl
  have hsplit := c.history_append [.submit a, .take] rest
  change c.history (.submit a :: .take :: rest) = _ at hsplit
  rw [hsplit, heard_append hmem (beq_iff_eq.2 hid) hnone]

theorem converse_converses {c : Client} (hidle : c.Idle) (hopen : c.closed = false)
    (counterpart : Counterpart) (n : Nat) (origin : String) (spec : Namespace.Spec) (body : Body) :
    let a : Attempt := ⟨counterpart.id n, counterpart.stem n, origin, spec, body, {}⟩
    let out := c.converse counterpart n origin spec body
    (Client.spec a).Resolves →
      out.2.2 = outcomeOf a.id out.2.1 ∧
        ∃ steps, c.Converses a (counterpart.moves n) out.2.1 steps := by
  intro a out hresolves
  obtain ⟨first, hsends⟩ := submit_sends hidle hopen hresolves
  obtain ⟨result, hanswer⟩ := Option.isSome_iff_exists.1 hsends.answered
  have harrivals := hsends.arrivals_append []
  rw [List.append_nil] at harrivals
  cases result with
  | error why =>
    have hout : out = _ := c.converse_of_error counterpart n origin spec body hanswer
    rw [hout]
    have hnot : answerIn? a.id (andThen (c.submit a) settle).2 ≠ some (.ok ()) := by
      rw [hanswer]
      simp
    refine ⟨(outcomeOf_of_error hanswer).symm, first, hsends.unasked, ?_, hsends.answered, ?_,
      fun hok => absurd hok hnot, fun hok => absurd hok hnot, fun hok => absurd hok hnot,
      fun hok => absurd hok hnot⟩
    · rw [hsends.run_eq]
    · rw [harrivals]
      exact List.nil_prefix
  | ok _ =>
    have hout : out = _ := c.converse_of_ok counterpart n origin spec body hanswer
    obtain ⟨⟨rest, hrest⟩, hregistered, hcaught, hsettled, hlive⟩ := hsends.told hanswer
    obtain ⟨second, hhears⟩ : ∃ second, c.Hears (.submit a :: first) (counterpart.moves n) second :=
      Hears.behind hopen hcaught hsettled hlive fun hready => hready.hears _
    have htold := answerIn?_append hanswer
      ((andThen (c.submit a) settle).1.hearAll (counterpart.moves n)).2
    rw [hout]
    refine ⟨(outcomeOf_of_ok htold).symm, first ++ second, ?_, ?_, ?_, ?_, fun _ => ?_,
      fun _ hgoes => ?_, fun _ => hhears.ends, fun _ => hhears.goes⟩
    · rw [List.forall_mem_append]
      exact ⟨hsends.unasked, hhears.unasked⟩
    · have heffects := hhears.effects_eq
      rw [hsends.run_eq] at heffects
      exact heffects
    · rw [htold]
      rfl
    · rw [hsends.arrivals_append]
      exact hhears.arrivals_prefix
    · have hstream := hhears.caughtUp.firstFor_eq a.id
      rw [List.cons_append] at hstream
      rw [hstream, hrest, List.cons_append, heard_of_taken hregistered]
    · rw [hsends.arrivals_append]
      exact hhears.arrivals_eq hgoes

end Client

end RemoteEval
