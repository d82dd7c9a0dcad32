import RemoteEval.Proofs.Client.Change
import RemoteEval.Proofs.Client.History

/-!
The client does not look at its scratch directory. Two clients that differ only in the files that
are there go the same way, so what others see of requests is the same whoever deletes files, and
whenever.
-/
namespace RemoteEval.Client

def bare (c : Client) : Client := { c with scratch := c.scratch.clear }

theorem bare_scratch {c : Client} {scratch : Scratch}
    (h : scratch.toScratchDir = c.scratch.toScratchDir) : bare { c with scratch } = c.bare := by
  simp only [bare, Scratch.clear, h]

theorem bare_elim (c : Client) (staged : Option String) :
    bare { c with scratch := staged.elim c.scratch c.scratch.remove } = c.bare := by
  refine bare_scratch ?_
  cases staged <;> rfl

theorem bare_finish (c : Client) (id : RequestId) (inflight : Inflight) (completion : Completion) :
    (c.finish id inflight completion).1.bare = c.bare := by
  rw [finish_fst]
  exact c.bare_elim inflight.staged

theorem bare_close (c : Client) (ending : Ending) : (c.close ending).1.bare =
    { c.bare with table := .empty, queue := [], closed := true } := by
  simp only [close_state, bare, Scratch.clear, Scratch.dir_removeAll]

theorem checked_bare (c : Client) : c.bare.checked = c.checked :=
  checked_congr ⟨rfl, rfl, rfl, rfl⟩ rfl

/-- What a call to send does to a client, but for its file. -/
theorem bare_submit_eq (c : Client) (a : Attempt) : (c.submit a).1.bare =
    match c.checked a with
    | .error _ => c.bare
    | .ok (request, inflight) =>
      if c.closed then c.bare
      else { c.bare with queue := c.queue ++ [.send request inflight] } := by
  unfold submit
  cases hprepare : c.prepare a with
  | error why => rw [prepare_error hprepare]
  | ok prepared =>
    obtain ⟨request, staged, scratch⟩ := prepared
    rw [prepare_ok hprepare]
    by_cases hclosed : c.closed = true
    · simp only [if_pos hclosed]
    · simp only [if_neg hclosed]
      exact bare_scratch (c := { c with queue := c.queue ++ [.send request _] })
        (prepare_scratch hprepare).2

theorem bare_register (c : Client) (request : Request) (inflight : Inflight) :
    (c.register request inflight).1.bare = (c.bare.register request inflight).1.bare := by
  have htable : c.bare.table = c.table := rfl
  have hconnection : c.bare.connection = c.connection := rfl
  unfold register
  rw [htable, hconnection]
  cases c.table.register request.id inflight with
  | error why => exact (c.bare_elim inflight.staged).trans (c.bare.bare_elim inflight.staged).symm
  | ok table =>
    obtain ⟨written, fault, connection⟩ := c.connection.send request
    cases fault with
    | none => rfl
    | some fault =>
      simp only [andThen_fst, bare_close, bare_finish]
      rfl

theorem bare_take (c : Client) : c.take.1.bare = c.bare.take.1.bare := by
  have hqueue : c.bare.queue = c.queue := rfl
  unfold take
  rw [hqueue]
  cases c.queue with
  | nil => rfl
  | cons command rest =>
    cases command with
    | send request inflight => exact bare_register { c with queue := rest } request inflight
    | outstanding n => rfl

theorem bare_dispatch (c : Client) (response : Response) :
    (c.dispatch response).1.bare = (c.bare.dispatch response).1.bare := by
  have hsame : c.bare.endedBy response = c.endedBy response := rfl
  cases hended : c.endedBy response with
  | none =>
    obtain ⟨level, text, hdispatch⟩ := dispatch_of_none hended
    obtain ⟨other, said, hbare⟩ := dispatch_of_none (hsame.trans hended)
    rw [hdispatch, hbare]
    rfl
  | some ended =>
    obtain ⟨id, inflight, completion⟩ := ended
    rw [dispatch_of_some hended, dispatch_of_some (hsame.trans hended)]
    simp only [andThen_fst, bare_finish]
    rfl

theorem bare_receive (c : Client) : c.receive.1.bare = c.bare.receive.1.bare := by
  have hclosed : c.bare.closed = c.closed := rfl
  have hconnection : c.bare.connection = c.connection := rfl
  unfold receive
  rw [hclosed, hconnection]
  split
  · rfl
  · obtain ⟨receipt, connection⟩ := c.connection.receive
    cases receipt with
    | response response => exact bare_dispatch { c with connection } response
    | ended => simp only [bare_close]; rfl
    | failed fault => simp only [bare_close]; rfl
    | waiting => rfl

/-- A step does the same to two clients that differ only in the files. -/
theorem bare_step (c : Client) (s : Step) : (c.step s).1.bare = (c.bare.step s).1.bare := by
  have hclosed : c.bare.closed = c.closed := rfl
  cases s with
  | submit a =>
    change (c.submit a).1.bare = (c.bare.submit a).1.bare
    rw [bare_submit_eq, bare_submit_eq, checked_bare]
    rfl
  | query n =>
    change (c.query n).1.bare = (c.bare.query n).1.bare
    unfold query
    rw [hclosed]
    split <;> rfl
  | take => exact c.bare_take
  | receive => exact c.bare_receive
  | stop =>
    simp only [step, hclosed]
    split
    · rfl
    · simp only [bare_close]
      rfl
  | arrive piece => rfl
  | closeOutput => rfl
  | dropRemote => rfl
  | failReads fault => rfl
  | failWrites after => rfl
  | failFlushes fault => rfl
  | erase path => rfl

theorem submitting_eq (c : Client) (a : Attempt) : c.submitting a =
    match c.checked a with
    | .error why => [.answered a.id (.error why)]
    | .ok _ => if c.closed then [.answered a.id (.error .connectionClosed)] else [] := by
  unfold submitting
  cases hprepare : c.prepare a with
  | error why => rw [prepare_error hprepare]
  | ok prepared => rw [prepare_ok hprepare]

theorem happens_bare (c : Client) (s : Step) : c.bare.happens s = c.happens s := by
  cases s with
  | submit a =>
    change c.bare.submitting a = c.submitting a
    rw [submitting_eq, submitting_eq, checked_bare]
    rfl
  | _ => rfl

/-- The same happens to the requests of two clients that differ only in the files, also when
someone deletes files of one of them. -/
theorem history_bare {c d : Client} (h : d.bare = c.bare) (steps : List Step) :
    d.history (steps.filter fun s => s.erased?.isNone) = c.history steps := by
  -- One client takes every step; the other leaves out those that delete files, which change only
  -- what `bare` forgets.
  induction steps generalizing c d with
  | nil => rfl
  | cons s rest ih =>
    cases herased : s.erased? with
    | none =>
      have hstep : (d.step s).1.bare = (c.step s).1.bare := by
        rw [bare_step, h, ← bare_step]
      rw [List.filter_cons_of_pos (by simp [herased]), history, history, ih hstep,
        ← happens_bare d, h, happens_bare]
    | some path =>
      obtain rfl : s = .erase path := by
        cases s <;> cases herased
        rfl
      exact ih (c := (c.step (.erase path)).1) h

/-- What others see of requests does not depend on who deletes files, and when. -/
theorem aboutRequests_unerased (c : Client) (steps : List Step) :
    aboutRequests (c.run (steps.filter fun s => s.erased?.isNone)).2 =
      aboutRequests (c.run steps).2 := by
  rw [aboutRequests_run, aboutRequests_run, history_bare rfl]

end RemoteEval.Client
