import RemoteEval.Proofs.Client.Ledger
import RemoteEval.Proofs.Client.Shown

/-!
Every registered request ends exactly once. A run is accounted for by two lists: the calls whose
requests the loop has registered, and those of them whose requests have ended, each with its end.
All progress, all callbacks and all tickets of the run are those of the two lists, one end after
another; when the loop has ended the lists hold the same calls.
-/
namespace RemoteEval

def Attempt.ends (a : Attempt) (completion : Completion) : List Effect :=
  (if a.callbacks.wants completion then [.callback a.id completion] else []) ++
    [.editor (.progress a.origin .stopped), .resolved a.id completion]

/-- What a run has come to: the calls whose requests are registered, and those of them whose
requests have ended, with their ends. -/
structure Account (c : Client) (steps : List Step) (begun : List Attempt)
    (settled : List (Attempt × Completion)) : Prop where
  registered : begun.map Attempt.id = (c.history steps).filterMap Moment.registered?
  called : ∀ a ∈ begun, a ∈ attempts steps
  begun_once : (begun.map Attempt.id).Nodup
  started : (c.run steps).2.filter Effect.ofStart =
    begun.map fun a => .editor (.progress a.origin .started)
  finished : settled.map (fun e => (e.1.id, e.2)) = (c.history steps).filterMap Moment.finished?
  settled_begun : ∀ e ∈ settled, e.1 ∈ begun
  settled_once : (settled.map fun e => e.1.id).Nodup
  ended : (c.run steps).2.filter Effect.ofEnd = settled.flatMap fun e => e.1.ends e.2
  all_settled : (c.run steps).1.closed = true → ∀ a ∈ begun, ∃ completion, (a, completion) ∈ settled
  refused : ∀ a ∈ attempts steps, a ∉ begun →
    (∃ why, (c.run steps).2.filter (Effect.answers a.id) = [.answered a.id (.error why)]) ∨
    ((c.run steps).1.closed = false ∧ (c.run steps).1.queued a.id ≠ [] ∧
      (c.run steps).2.filter (Effect.answers a.id) = [])

def Moment.begins? (calls : List Attempt) : Moment → Option Attempt
  | .registered request _ _ => caller calls request.id
  | _ => none

def Moment.ends? (calls : List Attempt) : Moment → Option (Attempt × Completion)
  | .finished id _ completion => (caller calls id).map fun a => (a, completion)
  | _ => none

namespace Client

def begun (c : Client) (steps : List Step) : List Attempt :=
  (c.history steps).filterMap (Moment.begins? (attempts steps))

def settled (c : Client) (steps : List Step) : List (Attempt × Completion) :=
  (c.history steps).filterMap (Moment.ends? (attempts steps))

theorem mem_begun {c : Client} {steps : List Step} {a : Attempt} :
    a ∈ c.begun steps ↔ ∃ request inflight written,
      .registered request inflight written ∈ c.history steps ∧
        caller (attempts steps) request.id = some a := by
  rw [begun, List.mem_filterMap]
  constructor
  · rintro ⟨moment, hmoment, hbegins⟩
    cases moment with
    | registered request inflight written => exact ⟨request, inflight, written, hmoment, hbegins⟩
    | _ => cases hbegins
  · rintro ⟨request, inflight, written, hmoment, hcaller⟩
    exact ⟨_, hmoment, hcaller⟩

theorem mem_settled {c : Client} {steps : List Step} {e : Attempt × Completion} :
    e ∈ c.settled steps ↔ ∃ id inflight,
      .finished id inflight e.2 ∈ c.history steps ∧ caller (attempts steps) id = some e.1 := by
  rw [settled, List.mem_filterMap]
  constructor
  · rintro ⟨moment, hmoment, hends⟩
    cases moment with
    | finished id inflight completion =>
      simp only [Moment.ends?, Option.map_eq_some_iff] at hends
      obtain ⟨a, hcaller, rfl⟩ := hends
      exact ⟨id, inflight, hmoment, hcaller⟩
    | _ => cases hends
  · rintro ⟨id, inflight, hmoment, hcaller⟩
    refine ⟨_, hmoment, ?_⟩
    rw [Moment.ends?, hcaller]
    rfl

end Client

namespace Ledger

variable {c : Client} {steps : List Step}

theorem begun_ids (h : Ledger (attempts steps) (c.run steps).1 (c.history steps))
    (hids : ((attempts steps).map Attempt.id).Nodup) :
    (c.begun steps).map Attempt.id = (c.history steps).filterMap Moment.registered? := by
  rw [Client.begun, List.map_filterMap]
  refine List.filterMap_congr ?_
  intro moment hmoment
  cases moment with
  | registered request inflight written =>
    obtain ⟨a, -, hid, hcaller, -⟩ := h.of_registered hids hmoment
    simp only [Moment.begins?, hcaller, Option.map_some, hid, Moment.registered?]
  | _ => rfl

theorem settled_ends (h : Ledger (attempts steps) (c.run steps).1 (c.history steps))
    (hids : ((attempts steps).map Attempt.id).Nodup) :
    (c.settled steps).map (fun e => (e.1.id, e.2)) =
      (c.history steps).filterMap Moment.finished? := by
  rw [Client.settled, List.map_filterMap]
  refine List.filterMap_congr ?_
  intro moment hmoment
  cases moment with
  | finished id inflight completion =>
    obtain ⟨a, -, hid, hcaller, -⟩ := h.of_finished hids hmoment
    simp only [Moment.ends?, hcaller, Option.map_some, hid, Moment.finished?]
  | _ => rfl

theorem begun_once (h : Ledger (attempts steps) (c.run steps).1 (c.history steps))
    (hids : ((attempts steps).map Attempt.id).Nodup) :
    ((c.begun steps).map Attempt.id).Nodup := by
  rw [h.begun_ids hids]
  refine nodup_of_dealings ?_ fun id => (h.once id).1
  intro moment id hmoment
  cases moment with
  | registered request inflight written =>
    cases hmoment
    exact beq_self_eq_true request.id
  | _ => cases hmoment

theorem settled_once (h : Ledger (attempts steps) (c.run steps).1 (c.history steps))
    (hids : ((attempts steps).map Attempt.id).Nodup) :
    ((c.settled steps).map fun e => e.1.id).Nodup := by
  have hends := congrArg (List.map Prod.fst) (h.settled_ends hids)
  rw [List.map_map, List.map_filterMap] at hends
  change ((c.settled steps).map (Prod.fst ∘ fun e => (e.1.id, e.2))).Nodup
  rw [hends]
  refine nodup_of_dealings ?_ fun id => ?_
  · intro moment id hmoment
    cases moment with
    | finished other inflight completion =>
      cases hmoment
      exact beq_self_eq_true other
    | _ => cases hmoment
  · rw [← List.map_filterMap, List.length_map]
    exact (h.once id).2

/-- Work begins for the contexts of the registered requests, and no other. -/
theorem started_run (h : Ledger (attempts steps) (c.run steps).1 (c.history steps))
    (hids : ((attempts steps).map Attempt.id).Nodup) :
    (c.run steps).2.filter Effect.ofStart =
      (c.begun steps).map fun a => .editor (.progress a.origin .started) := by
  rw [c.filter_run steps fun _ => Effect.ofRequest_of_ofStart, List.map_eq_flatMap]
  refine flatMap_shown ?_
  intro moment hmoment
  cases moment with
  | registered request inflight written =>
    obtain ⟨a, -, -, hcaller, hof, -⟩ := h.of_registered hids hmoment
    simp only [Moment.begins?, hcaller, Option.elim_some, ← hof.origin_eq]
    rfl
  | finished id inflight completion =>
    refine List.filter_eq_nil_iff.2 ?_
    intro effect heffect
    rw [(Client.of_mem_ending heffect).1]
    exact Bool.false_ne_true
  | _ => rfl

/-- Callbacks, the end of work and tickets are those of the requests that have ended. -/
theorem ended_run (h : Ledger (attempts steps) (c.run steps).1 (c.history steps))
    (hids : ((attempts steps).map Attempt.id).Nodup) :
    (c.run steps).2.filter Effect.ofEnd = (c.settled steps).flatMap fun e => e.1.ends e.2 := by
  rw [c.filter_run steps fun _ => Effect.ofRequest_of_ofEnd]
  refine flatMap_shown ?_
  intro moment hmoment
  cases moment with
  | finished id inflight completion =>
    obtain ⟨a, -, hid, hcaller, hof, -⟩ := h.of_finished hids hmoment
    simp only [Moment.ends?, hcaller, Option.map_some, Option.elim_some, Attempt.ends,
      ← hof.origin_eq, ← hof.callbacks_eq, hid]
    exact c.filter_ending_ofEnd id inflight completion
  | _ => rfl

/-- A call whose request is not registered returns an error, or its request still waits. -/
theorem refused_run (h : Ledger (attempts steps) (c.run steps).1 (c.history steps))
    (hids : ((attempts steps).map Attempt.id).Nodup) {a : Attempt} (ha : a ∈ attempts steps)
    (hnone : a ∉ c.begun steps) :
    (∃ why, (c.run steps).2.filter (Effect.answers a.id) = [.answered a.id (.error why)]) ∨
    ((c.run steps).1.closed = false ∧ (c.run steps).1.queued a.id ≠ [] ∧
      (c.run steps).2.filter (Effect.answers a.id) = []) := by
  have hunregistered : ∀ request inflight written,
      .registered request inflight written ∉ dealings a.id (c.history steps) := by
    intro request inflight written hmem
    obtain ⟨hhistory, habout⟩ := List.mem_filter.1 hmem
    have hid : request.id = a.id := by simpa [Moment.about] using habout
    refine hnone (Client.mem_begun.2 ⟨request, inflight, written, hhistory, ?_⟩)
    rw [hid]
    exact caller_eq hids ha
  rw [c.answers_run]
  rcases (h.standing a ha).of_unregistered hunregistered with
    ⟨why, hrefused⟩ | ⟨hopen, hqueued, hnil⟩
  · exact .inl ⟨why, by rw [hrefused]; rfl⟩
  · exact .inr ⟨hopen, hqueued, by rw [hnil]; rfl⟩

theorem account (h : Ledger (attempts steps) (c.run steps).1 (c.history steps))
    (hids : ((attempts steps).map Attempt.id).Nodup) :
    Account c steps (c.begun steps) (c.settled steps) where
  registered := h.begun_ids hids
  called := by
    intro a ha
    obtain ⟨request, inflight, written, -, hcaller⟩ := Client.mem_begun.1 ha
    exact List.mem_of_find?_eq_some hcaller
  begun_once := h.begun_once hids
  started := h.started_run hids
  finished := h.settled_ends hids
  settled_begun := by
    intro e he
    obtain ⟨id, inflight, hmoment, hcaller⟩ := Client.mem_settled.1 he
    obtain ⟨a, -, rfl, -, -, request, written, hid, hstart⟩ := h.of_finished hids hmoment
    exact Client.mem_begun.2 ⟨request, inflight, written, hstart, hid ▸ hcaller⟩
  settled_once := h.settled_once hids
  ended := h.ended_run hids
  all_settled := by
    intro hclosed a ha
    obtain ⟨request, inflight, written, hmoment, hcaller⟩ := Client.mem_begun.1 ha
    obtain ⟨b, -, hid, -, -, hended⟩ := h.of_registered hids hmoment
    obtain ⟨completion, hend⟩ := hended hclosed
    refine ⟨completion, Client.mem_settled.2 ⟨b.id, inflight, hend, ?_⟩⟩
    rw [hid]
    exact hcaller
  refused := by
    intro a ha hnone
    exact h.refused_run hids ha hnone

end Ledger

/-- In every run of a client whose calls have distinct ids, every request that is registered ends
at most once, and exactly once when the loop has ended. -/
theorem Client.every_registered_request_ends_once (connection : Connection) (config : Config)
    (stager : Stager) (scratch : Scratch) (steps : List Step)
    (hids : ((attempts steps).map Attempt.id).Nodup) :
    ∃ begun settled, Account (Client.new connection config stager scratch) steps begun settled :=
  ⟨_, _, ((Ledger.new connection config stager scratch).run hids).account hids⟩

/-- Two calls: the request of the first is registered when the client is stopped, that of the
second still queued. -/
theorem Client.every_registered_request_ends_once_when_stopped :
    ((Client.new { peer := "repl" } {} {}).run
        [.submit ⟨"a", "", "buffer", .default, .text "1", { onFailure := true }⟩,
          .submit ⟨"b", "", "buffer", .default, .text "2", {}⟩, .take, .stop]).1.closed = true ∧
      ∃ begun settled, Account (Client.new { peer := "repl" } {} {})
        [.submit ⟨"a", "", "buffer", .default, .text "1", { onFailure := true }⟩,
          .submit ⟨"b", "", "buffer", .default, .text "2", {}⟩, .take, .stop] begun settled :=
  ⟨rfl, Client.every_registered_request_ends_once { peer := "repl" } {} {} {} _ (by decide)⟩

end RemoteEval
