import RemoteEval.Proofs.Client.Course
import RemoteEval.Proofs.Connection

/-!
The responses of a run and the stream they come from. While the loop runs, what it has dispatched
and what the connection will still give are together always the same. So when it ends because
the stream has, all of the stream has been dispatched.
-/
namespace RemoteEval

/-- The pieces that the remote end writes in a run until it closes its output, if it has not done
so before. -/
def arrivals : Bool → List Step → List (List UInt8)
  | true, _ => []
  | false, [] => []
  | false, .arrive piece :: steps => piece :: arrivals false steps
  | false, .closeOutput :: _ => []
  | false, .dropRemote :: _ => []
  | false, _ :: steps => arrivals false steps

theorem arrivals_closed (steps : List Step) : arrivals true steps = [] := by
  cases steps <;> rfl

namespace Client

def stream (c : Client) (steps : List Step) : List Response :=
  c.connection.rest (arrivals c.connection.outputClosed steps)

theorem send_input (c : Connection) (request : Request) :
    (c.send request).2.2.SameInput c := by
  unfold Connection.send Connection.write
  split
  · exact ⟨rfl, rfl, rfl, rfl⟩
  · split <;> exact ⟨rfl, rfl, rfl, rfl⟩

theorem register_input (c : Client) (request : Request) (inflight : Inflight) :
    (c.register request inflight).1.connection.SameInput c.connection := by
  have hinput := send_input c.connection request
  cases c.registration request inflight with
  | duplicate text hmem hregister hmoments =>
    rw [hregister]
    exact ⟨rfl, rfl, rfl, rfl⟩
  | accepted table written connection hfree hentries hsend hregister hmoments =>
    rw [hregister]
    rw [hsend] at hinput
    exact hinput
  | unwritten written fault connection hfree hsend hregister hmoments =>
    rw [hregister]
    rw [hsend] at hinput
    simp only [andThen_fst, close_connection, finish_fst]
    exact hinput

theorem take_input (c : Client) : c.take.1.connection.SameInput c.connection := by
  unfold take
  cases c.queue with
  | nil => exact ⟨rfl, rfl, rfl, rfl⟩
  | cons command rest =>
    cases command with
    | send request inflight => exact register_input { c with queue := rest } request inflight
    | outstanding n => exact ⟨rfl, rfl, rfl, rfl⟩

theorem responses_registering (c : Client) (request : Request) (inflight : Inflight) :
    responses (c.registering request inflight) = [] := by
  cases c.registration request inflight with
  | duplicate text hmem hregister hmoments =>
    rw [hmoments]
    rfl
  | accepted table written connection hfree hentries hsend hregister hmoments =>
    rw [hmoments]
    rfl
  | unwritten written fault connection hfree hsend hregister hmoments =>
    rw [hmoments, responses_append, responses_closing]
    rfl

/-- Only by receiving the loop takes a response. -/
theorem responses_happens (c : Client) {s : Step} (h : s ≠ .receive) :
    responses (c.happens s) = [] := by
  cases s with
  | submit a =>
    simp only [happens, submitting]
    split
    · rfl
    · split <;> rfl
  | take =>
    simp only [happens, taking]
    split
    · rfl
    · exact responses_registering _ _ _
    · rfl
  | receive => exact absurd rfl h
  | stop =>
    simp only [happens]
    split
    · rfl
    · exact responses_closing c .stopped
  | _ => rfl

/-- Receiving takes what it gives off the stream. -/
theorem receives_stream (c : Client) (steps : List Step) :
    c.connection.Receives (arrivals c.connection.outputClosed steps) c.connection.receive.1
      c.connection.receive.2 := by
  refine c.connection.receive_receives ?_
  intro hclosed
  rw [hclosed]
  exact arrivals_closed steps

theorem stream_receive (c : Client) (steps : List Step) :
    c.stream (.receive :: steps) =
      c.connection.rest (arrivals c.connection.outputClosed steps) := by
  rw [stream]
  cases c.connection.outputClosed with
  | false => rfl
  | true => rw [arrivals_closed, arrivals_closed]

/-- What is received in a step is dispatched in it. -/
theorem responses_receiving {c : Client} (hopen : c.closed = false) :
    responses c.receiving = c.connection.receive.1.responses := by
  unfold receiving
  rw [if_neg (by simp [hopen])]
  cases c.connection.receive.1 with
  | response response => exact responses_dispatching c response
  | ended => exact responses_closing c .remoteClosed
  | failed fault => exact responses_closing c (.io fault)
  | waiting => rfl

theorem receive_connection {c : Client} (hopen : c.closed = false) :
    c.receive.1.connection = c.connection.receive.2 := by
  unfold receive
  rw [if_neg (by simp [hopen])]
  obtain ⟨receipt, connection⟩ := c.connection.receive
  cases receipt with
  | response response =>
    obtain ⟨scratch, hstate⟩ := dispatch_fst { c with connection } response
    exact congrArg Client.connection hstate
  | ended => exact close_connection { c with connection } .remoteClosed
  | failed fault => exact close_connection { c with connection } (.io fault)
  | waiting => rfl

/-- In one step the loop takes off the stream what it dispatches. -/
theorem step_stream {c : Client} (hopen : c.closed = false) (s : Step) (steps : List Step) :
    c.stream (s :: steps) = responses (c.happens s) ++ (c.step s).1.stream steps := by
  have hquiet : ∀ t : Step, t ≠ .receive → arrivals false (t :: steps) = arrivals false steps →
      (c.step t).1.connection.SameInput c.connection →
      c.stream (t :: steps) = responses (c.happens t) ++ (c.step t).1.stream steps := by
    intro t hother harrivals hinput
    rw [c.responses_happens hother, List.nil_append, stream, stream, hinput.rest_eq,
      hinput.outputClosed_eq]
    cases c.connection.outputClosed with
    | false => rw [harrivals]
    | true => rw [arrivals_closed, arrivals_closed]
  have hsame : c.connection.SameInput c.connection := ⟨rfl, rfl, rfl, rfl⟩
  cases s with
  | submit a =>
    refine hquiet _ (by simp) rfl ?_
    simp only [step, submit]
    split
    · exact hsame
    · split <;> exact hsame
  | query n =>
    refine hquiet _ (by simp) rfl ?_
    simp only [step, query]
    split <;> exact hsame
  | take => exact hquiet _ (by simp) rfl c.take_input
  | receive =>
    have hreceives := c.receives_stream steps
    change c.stream (.receive :: steps) = responses c.receiving ++ c.receive.1.stream steps
    rw [stream_receive, hreceives.rest_eq, responses_receiving hopen, stream,
      receive_connection hopen, hreceives.outputClosed_eq]
  | stop =>
    refine hquiet _ (by simp) rfl ?_
    simp only [step]
    split
    · exact hsame
    · rw [close_connection]
      exact hsame
  | arrive piece =>
    simp only [step, happens, stream, Connection.arrive]
    cases hclosed : c.connection.outputClosed with
    | true =>
      simp only [if_true, hclosed, arrivals_closed]
      rfl
    | false =>
      simp only [Bool.false_eq_true, if_false, Connection.rest, arrivals,
        List.append_assoc]
      rfl
  | closeOutput =>
    simp only [step, happens, stream, Connection.closeOutput, arrivals_closed]
    cases c.connection.outputClosed <;> rfl
  | dropRemote =>
    simp only [step, happens, stream, Connection.dropRemote, arrivals_closed]
    cases c.connection.outputClosed <;> rfl
  | failReads fault => exact hquiet _ (by simp) rfl ⟨rfl, rfl, rfl, rfl⟩
  | failWrites after => exact hquiet _ (by simp) rfl ⟨rfl, rfl, rfl, rfl⟩
  | failFlushes fault => exact hquiet _ (by simp) rfl ⟨rfl, rfl, rfl, rfl⟩
  | erase path => exact hquiet _ (by simp) rfl hsame

/-- A loop that ends because the stream has ended has dispatched all of the stream before. -/
theorem run_stream {c : Client} (hopen : c.closed = false) {steps : List Step}
    (hended : .ended .remoteClosed ∈ c.history steps) :
    ∃ before after, c.history steps = before ++ .ended .remoteClosed :: after ∧
      responses before = c.stream steps ∧ (∀ moment ∈ before, moment.ofEnding = false) ∧
      responses after = [] := by
  induction steps generalizing c with
  | nil => cases hended
  | cons s rest ih =>
    cases step_course hopen s with
    | runs hstill hmoments =>
      have hrest : .ended .remoteClosed ∈ (c.step s).1.history rest := by
        rcases List.mem_append.1 hended with hended | hended
        · cases hmoments _ hended
        · exact hended
      obtain ⟨before, after, hhistory, hbefore, hsome, hafter⟩ := ih hstill hrest
      refine ⟨c.happens s ++ before, after, ?_, ?_, ?_, hafter⟩
      · rw [Client.history, hhistory, List.append_assoc]
      · rw [responses_append, hbefore, step_stream hopen]
      · intro moment hmoment
        rcases List.mem_append.1 hmoment with hmoment | hmoment
        · exact hmoments moment hmoment
        · exact hsome moment hmoment
    | ends front d ending hdone hmoments hfront hremote =>
      have hclosing : .ended .remoteClosed ∈ d.closing ending := by
        rcases List.mem_append.1 hended with hended | hended
        · rw [hmoments] at hended
          exact (List.mem_append.1 hended).resolve_left (hfront _)
        · obtain ⟨id, result, hanswered⟩ := hdone.history rest _ hended
          cases hanswered
      cases eq_of_ended_mem_closing hclosing
      obtain ⟨rfl, rfl, hreceipt⟩ := hremote rfl
      have hnone := responses_closing d .remoteClosed
      obtain ⟨tail, htail⟩ : ∃ tail, d.closing .remoteClosed = .ended .remoteClosed :: tail :=
        ⟨_, rfl⟩
      rw [htail] at hmoments hnone
      refine ⟨[], tail ++ (c.step .receive).1.history rest, ?_, ?_, ?_, ?_⟩
      · rw [Client.history, hmoments]
        rfl
      · have hreceives := c.receives_stream rest
        rw [stream_receive, hreceives.rest_eq, hreceives.ended hreceipt, hreceipt]
        rfl
      · intro moment hmoment
        cases hmoment
      · rw [responses_append, show responses tail = [] from hnone, List.nil_append]
        exact filterMap_of_answered (fun _ _ => rfl) (hdone.history rest)

end Client

end RemoteEval
