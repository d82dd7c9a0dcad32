import RemoteEval.Proofs.Client.Exchange

/-!
A loop that goes on until it has nothing to do. It leaves nothing in the queue: every command that
waited has been taken, and none comes in meanwhile.
-/
namespace RemoteEval.Client

/-- Whatever becomes of the first command, it is not in the queue any more. -/
theorem take_queue (c : Client) : c.take.1.queue = c.queue.tail ∨ c.take.1.queue = [] := by
  unfold take
  cases hqueue : c.queue with
  | nil => exact .inl hqueue
  | cons command rest =>
    cases command with
    | outstanding n => exact .inl rfl
    | send request inflight =>
      cases registration { c with queue := rest } request inflight with
      | duplicate text hmem hregister hmoments =>
        simp only [hregister]
        exact .inl rfl
      | accepted table written connection hfree hentries hsend hregister hmoments =>
        simp only [hregister]
        exact .inl rfl
      | unwritten written fault connection hfree hsend hregister hmoments =>
        refine .inr ?_
        simp only [hregister, andThen_fst, close_state]

theorem take_queue_nil {c : Client} {command : Command} (h : c.queue = [command]) :
    c.take.1.queue = [] := by
  rcases c.take_queue with htail | hnil
  · rw [htail, h]
    rfl
  · exact hnil

theorem takeAll_queue (c : Client) : c.takeAll.1.queue = [] := by
  have htakes : ∀ (commands : List Command) (c : Client), c.queue.length ≤ commands.length →
      (c.run (commands.map fun _ => .take)).1.queue = [] := by
    intro commands
    induction commands with
    | nil => exact fun c hlength => List.length_eq_zero_iff.1 (Nat.le_zero.1 hlength)
    | cons command rest ih =>
      intro c hlength
      rw [List.map_cons, run, andThen_fst]
      refine ih (c.step .take).1 ?_
      rw [List.length_cons] at hlength
      rcases c.take_queue with htail | hnil
      · rw [step, htail, List.length_tail]
        omega
      · rw [step, hnil]
        exact Nat.zero_le _
  exact htakes c.queue c (Nat.le_refl _)

theorem receiveUpTo_queue {c : Client} (h : c.queue = []) (n : Nat) :
    (receiveUpTo n c).1.queue = [] := by
  induction n generalizing c with
  | zero => exact h
  | succ n ih =>
    have hreceived := (c.receive_change.alone rfl h).1
    unfold receiveUpTo
    split
    · exact h
    · split
      · exact hreceived
      · exact ih hreceived

theorem settle_queue (c : Client) : c.settle.1.queue = [] := by
  rw [settle, andThen_fst]
  exact receiveUpTo_queue c.takeAll_queue _

section Converse

variable (c : Client) (counterpart : Counterpart) (n : Nat) (origin : String)
  (spec : Namespace.Spec) (body : Body)

/-- A dialogue ends when the call is refused. -/
theorem converse_of_error {why : Error} :
    let a : Attempt := ⟨counterpart.id n, counterpart.stem n, origin, spec, body, {}⟩
    let sent := andThen (c.submit a) settle
    answerIn? a.id sent.2 = some (.error why) →
      c.converse counterpart n origin spec body = (sent.1, sent.2, .refused why) := by
  intro a sent hanswer
  simp only [converse]
  rw [hanswer]

/-- When the call has been told that its request is registered the remote end makes its moves. -/
theorem converse_of_ok :
    let a : Attempt := ⟨counterpart.id n, counterpart.stem n, origin, spec, body, {}⟩
    let sent := andThen (c.submit a) settle
    let heard := sent.1.hearAll (counterpart.moves n)
    answerIn? a.id sent.2 = some (.ok ()) →
      c.converse counterpart n origin spec body = (heard.1, sent.2 ++ heard.2,
        (completionIn? a.id (sent.2 ++ heard.2)).elim .unanswered .completed) := by
  intro a sent heard hanswer
  simp only [converse]
  rw [hanswer]
  cases completionIn? a.id (sent.2 ++ heard.2) <;> rfl

end Converse

end RemoteEval.Client
