import RemoteEval.Proofs.Client.Exchange
import RemoteEval.Proofs.Client.Hearing

/-!
A loop that goes on receiving until it has nothing to do. Every response takes up a byte of what has
come in, so it gets to the end of that; and nothing is left in the connection then but what is for
no request.
-/
namespace RemoteEval

/-- What is for no request has no part in what a request hears first. -/
theorem firstFor_append_left (id : RequestId) (events : List Response) {left : List Response}
    (hleft : ∀ response ∈ left, response.id? = none) :
    firstFor id (events ++ left) = firstFor id events := by
  have hnone : firstFor id left = none := by
    rw [firstFor, List.find?_eq_none]
    intro response hresponse
    simp [hleft response hresponse]
  rw [firstFor, List.find?_append, ← firstFor, ← firstFor, hnone, Option.or_none]

namespace Client

/-- Up to the end of a loop, what it has taken and what its client will still get are the stream. -/
theorem stream_append {c : Client} (hopen : c.closed = false) {first : List Step}
    (hstill : (c.run first).1.closed = false) (second : List Step) :
    c.stream (first ++ second) =
      responses (c.history first) ++ (c.run first).1.stream second := by
  induction first generalizing c with
  | nil => rfl
  | cons s rest ih =>
    rw [List.cons_append, step_stream hopen, history, responses_append, List.append_assoc]
    cases step_course hopen s with
    | runs hruns hmoments =>
      rw [ih hruns hstill]
      rfl
    | ends front d ending hended hmoments hfront hremote =>
      rw [run, andThen_fst, hended.run_closed rest] at hstill
      cases hstill

theorem stream_nil (c : Client) : c.stream [] = c.connection.rest [] := by
  rw [stream]
  cases c.connection.outputClosed <;> rfl

/-- In a run the loop has taken all of the stream that is for requests. -/
structure CaughtUp (c : Client) (steps : List Step) : Prop where
  stream_eq : c.stream steps = responses (c.history steps) ++ (c.run steps).1.stream []
  spent : (c.run steps).1.connection.Spent

namespace CaughtUp

variable {c : Client}

theorem nil (hspent : c.connection.Spent) : c.CaughtUp [] := ⟨rfl, hspent⟩

theorem firstFor_eq {steps : List Step} (h : c.CaughtUp steps) (id : RequestId) :
    firstFor id (c.stream steps) = firstFor id (responses (c.history steps)) := by
  have hspent := h.spent
  rw [Connection.Spent, ← stream_nil] at hspent
  rw [h.stream_eq, firstFor_append_left id _ hspent]

/-- What catches up behind a step catches up with it. -/
theorem behind {s : Step} {steps : List Step} (hopen : c.closed = false)
    (h : (c.step s).1.CaughtUp steps) : c.CaughtUp (s :: steps) where
  stream_eq := by
    rw [step_stream hopen, h.stream_eq, history, responses_append, List.append_assoc]
    rfl
  spent := h.spent

theorem append {first second : List Step} (hopen : c.closed = false)
    (hstill : (c.run first).1.closed = false) (h : (c.run first).1.CaughtUp second) :
    c.CaughtUp (first ++ second) where
  stream_eq := by
    rw [stream_append hopen hstill, h.stream_eq, history_append, responses_append, run_append,
      List.append_assoc]
    rfl
  spent := by
    rw [run_append]
    exact h.spent

end CaughtUp

structure Ready (c : Client) : Prop where
  running : c.closed = false
  queue_nil : c.queue = []
  unread_nil : c.connection.unread = []
  output_open : c.connection.outputClosed = false
  spent : c.connection.Spent

/-- In a run of receiving the loop takes all that there is; if the remote end has closed its output
it ends, and if nothing fails it goes on. -/
structure Reads (c : Client) (steps : List Step) : Prop where
  caughtUp : c.CaughtUp steps
  settled : (c.run steps).1.Ready ∨ (c.run steps).1.Ended
  ends : c.connection.outputClosed = true → (c.run steps).1.Ended
  live : c.connection.Live → (c.run steps).1.Ready ∧ (c.run steps).1.connection.Live

theorem receive_running {c : Client} (hopen : c.closed = false)
    (h : c.connection.receive.1 = .waiting ∨
      ∃ response, c.connection.receive.1 = .response response) : c.receive.1.closed = false := by
  unfold receive
  rw [if_neg (by simp [hopen])]
  dsimp only
  rcases h with hwaiting | ⟨response, hresponse⟩
  · rw [hwaiting]
    exact hopen
  · obtain ⟨scratch, hstate⟩ :=
      dispatch_fst { c with connection := c.connection.receive.2 } response
    rw [hresponse]
    dsimp only
    rw [hstate]
    exact hopen

theorem receive_over {c : Client} (hopen : c.closed = false)
    (h : c.connection.receive.1 = .ended ∨ ∃ fault, c.connection.receive.1 = .failed fault) :
    c.receive.1.Ended := by
  unfold receive
  rw [if_neg (by simp [hopen])]
  dsimp only
  rcases h with hended | ⟨fault, hfailed⟩
  · rw [hended]
    exact close_ended _ _
  · rw [hfailed]
    exact close_ended _ _

theorem receiveUpTo_of_closed {c : Client} (h : c.closed = true) (n : Nat) :
    receiveUpTo n c = (c, []) := by
  cases n with
  | zero => rfl
  | succ n =>
    unfold receiveUpTo
    rw [if_pos h]

/-- A loop that goes on receiving until there is nothing, and may do so often enough. -/
theorem receiveUpTo_reads {c : Client} (hopen : c.closed = false) (hqueue : c.queue = []) {n : Nat}
    (hless : c.connection.pending < n) :
    ∃ k, receiveUpTo n c = c.run (List.replicate k .receive) ∧
      c.Reads (List.replicate k .receive) := by
  induction n generalizing c with
  | zero => exact absurd hless (Nat.not_lt_zero _)
  | succ n ih =>
    have hgives := c.connection.receive_gives
    have hconnection := receive_connection hopen
    have hempty := (c.receive_change.alone rfl hqueue).1
    have houtput : c.receive.1.connection.outputClosed = c.connection.outputClosed := by
      rw [hconnection]
      exact (c.receives_stream []).outputClosed_eq
    have hone : c.run [.receive] = c.receive := by simp [run, andThen, step]
    have hcaught : c.receive.1.connection.Spent → c.CaughtUp [.receive] :=
      fun hspent => .behind hopen (.nil hspent)
    rw [← hconnection] at hgives
    unfold receiveUpTo
    rw [if_neg (by simp [hopen])]
    -- When the loop ends with this step it does nothing more.
    have hover (hended : c.receive.1.Ended) (hspent : c.receive.1.connection.Spent)
        (hnot : ¬ c.connection.Live) :
        ∃ k, andThen c.receive (receiveUpTo n) = c.run (List.replicate k .receive) ∧
          c.Reads (List.replicate k .receive) := by
      refine ⟨1, ?_, hcaught hspent, .inr ?_, fun _ => ?_, fun hlive => absurd hlive hnot⟩
      · rw [andThen, receiveUpTo_of_closed hended.closed]
        simp [hone]
      · exact hended
      · exact hended
    generalize hreceipt : c.connection.receive.1 = receipt at hgives ⊢
    cases hgives with
    | response response hfewer hlive =>
      have hruns := receive_running hopen (.inr ⟨response, hreceipt⟩)
      obtain ⟨k, hrun, hreads⟩ := ih hruns hempty (by omega)
      have hsteps : (c.run (List.replicate (k + 1) .receive)).1 =
          (c.receive.1.run (List.replicate k .receive)).1 := rfl
      refine ⟨k + 1, ?_, ?_, ?_, ?_, ?_⟩
      · rw [andThen, hrun]
        rfl
      · exact .behind (s := .receive) hopen hreads.caughtUp
      · rw [hsteps]
        exact hreads.settled
      · rw [hsteps]
        exact fun hclosed => hreads.ends (houtput.trans hclosed)
      · rw [hsteps]
        exact fun h => hreads.live (hlive h)
    | waiting hread hstill hspent hlive =>
      have hready : c.receive.1.Ready :=
        ⟨receive_running hopen (.inl hreceipt), hempty, hread, hstill, hspent⟩
      refine ⟨1, hone.symm, hcaught hspent, .inl hready, fun hclosed => ?_, fun h => ?_⟩
      · cases (houtput.trans hclosed).symm.trans hstill
      · exact ⟨hready, hlive h⟩
    | ended hspent hnot => exact hover (receive_over hopen (.inl hreceipt)) hspent hnot
    | failed fault hspent hnot =>
      exact hover (receive_over hopen (.inr ⟨fault, hreceipt⟩)) hspent hnot

theorem settle_of_queue_nil {c : Client} (h : c.queue = []) :
    c.settle = receiveUpTo (c.connection.pending + 1) c := by
  rw [settle, takeAll, h]
  rfl

theorem settle_reads {c : Client} (hopen : c.closed = false) (hqueue : c.queue = []) :
    ∃ k, c.settle = c.run (List.replicate k .receive) ∧ c.Reads (List.replicate k .receive) := by
  rw [settle_of_queue_nil hqueue]
  exact receiveUpTo_reads hopen hqueue (Nat.lt_succ_self _)

end Client

end RemoteEval
