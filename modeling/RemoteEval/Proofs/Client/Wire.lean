import RemoteEval.Proofs.Client.Docket
import RemoteEval.Proofs.Request

/-!
What is written to the connection, and what senders are told. The requests that are registered
are written whole and their calls told so, but for one at most: when it cannot be written the loop
ends, so it is the last. All of it is read off the docket of the run, so it is said of each call and
not of each id.
-/
namespace RemoteEval

open scoped List

def Effect.accepted? : Effect → Option RequestId
  | .answered id (.ok _) => some id
  | _ => none

namespace Client

/-- Once the loop has ended nothing is written. -/
theorem Ended.wireBytes_run {c : Client} (h : c.Ended) (steps : List Step) :
    wireBytes (c.run steps).2 = [] := by
  rw [wireBytes, wrote_run, filterMap_of_answered (fun _ _ => rfl) (h.history steps)]
  rfl

/-- Work begins for the contexts of the registered requests, in order. -/
theorem started_entries (c : Client) (steps : List Step) :
    (c.run steps).2.filter Effect.ofStart =
      (entries (c.history steps)).map fun entry => .editor (.progress entry.2.origin .started) := by
  rw [c.filter_run steps fun _ => Effect.ofRequest_of_ofStart, List.map_eq_flatMap]
  refine flatMap_shown ?_
  intro moment hmoment
  cases moment with
  | finished id inflight completion =>
    refine List.filter_eq_nil_iff.2 ?_
    intro effect heffect
    rw [(of_mem_ending heffect).1]
    exact Bool.false_ne_true
  | _ => rfl

end Client

/-- The calls whose requests are registered have them written whole, but for the last at most. -/
theorem registered_split {settled : List (Attempt × Fate)}
    (h : settled.Pairwise fun e later => e.2.shut = true → later.2.taken = false) :
    ∃ (accepted : List Attempt) (failed : Option (Attempt × List UInt8)),
      settled.filter (fun e => e.2.registered) =
        accepted.map (fun a => (a, .whole)) ++ failed.toList.map fun e => (e.1, .cut e.2) := by
  induction settled with
  | nil => exact ⟨[], none, rfl⟩
  | cons e rest ih =>
    obtain ⟨hlater, hrest⟩ := List.pairwise_cons.1 h
    obtain ⟨accepted, failed, hsplit⟩ := ih hrest
    obtain ⟨a, fate⟩ := e
    cases fate with
    | whole => exact ⟨a :: accepted, failed, by rw [List.filter_cons_of_pos rfl, hsplit]; rfl⟩
    | cut bytes =>
      have hnone : rest.filter (fun e => e.2.registered) = [] := by
        refine List.filter_eq_nil_iff.2 fun e he hregistered => ?_
        have htaken := hlater e he rfl
        cases hfate : e.2 <;> simp [hfate, Fate.registered, Fate.taken] at hregistered htaken
      exact ⟨[], some (a, bytes), by rw [List.filter_cons_of_pos rfl, hnone]; rfl⟩
    | _ => exact ⟨accepted, failed, hsplit⟩

/-- Who is told of success is among those that are told anything. -/
theorem filterMap_ofAnswer (effects : List Effect) :
    (effects.filter Effect.ofAnswer).filterMap Effect.accepted? =
      effects.filterMap Effect.accepted? := by
  rw [List.filterMap_filter]
  refine List.filterMap_congr fun effect _ => ?_
  cases effect <;> rfl

/-- Only calls whose requests are registered have something to show for it. -/
theorem filterMap_registered {β : Type} {view : Attempt × Fate → Option β}
    (hview : ∀ e, e.2.registered = false → view e = none) (settled : List (Attempt × Fate)) :
    settled.filterMap view = (settled.filter fun e => e.2.registered).filterMap view := by
  rw [List.filterMap_filter]
  refine List.filterMap_congr fun e _ => ?_
  cases hregistered : e.2.registered with
  | false => exact hview e hregistered
  | true => rfl

/-- The request of a call is cut off after some bytes, or only not flushed: the request ends as one
that the connection has closed on, the call returns an error, and nothing is ever written behind
the bytes. -/
structure CutOff (c : Client) (steps : List Step) (a : Attempt) (bytes : List UInt8) : Prop where
  begins : bytes <+: c.frame a
  closed : (c.run steps).1.closed = true
  untracked : (c.run steps).1.table.get? a.id = none
  ended : ∃ entry, c.checked a = .ok entry ∧
    [.editor (.progress a.origin .started), .wrote bytes] ++
        c.ending a.id entry.2 (.failure .connectionClosed) ++
        [.answered a.id (.error .connectionClosed)] <:+:
      Client.aboutRequests (c.run steps).2
  last : ∀ later, wireBytes (c.run (steps ++ later)).2 = wireBytes (c.run steps).2

/-- What is on the wire after a run with this docket: the requests of some calls, and perhaps a part
of that of one more. -/
structure OnWire (c : Client) (steps : List Step) (settled : List (Attempt × Fate))
    (waiting accepted : List Attempt) (failed : Option (Attempt × List UInt8)) : Prop where
  docket : Docket c steps settled waiting
  split : settled.filter (fun e => e.2.registered) =
    accepted.map (fun a => (a, .whole)) ++ failed.toList.map fun e => (e.1, .cut e.2)
  order : accepted ++ failed.toList.map Prod.fst <+ attempts steps
  registered : (accepted ++ failed.toList.map Prod.fst).map Attempt.id =
    (c.history steps).filterMap Moment.registered?
  framed : ∀ a ∈ accepted ++ failed.toList.map Prod.fst, ∃ entry line,
    c.checked a = .ok entry ∧ c.frame a = line ++ [Framing.lineBreak] ∧ Framing.lineBreak ∉ line
  written : wireBytes (c.run steps).2 = accepted.flatMap c.frame ++ failed.elim [] Prod.snd
  started : (c.run steps).2.filter Effect.ofStart =
    (accepted ++ failed.toList.map Prod.fst).map fun a => .editor (.progress a.origin .started)
  accepted_eq : (c.run steps).2.filterMap Effect.accepted? = accepted.map Attempt.id
  cut : ∀ a bytes, failed = some (a, bytes) → CutOff c steps a bytes
  refused : ∀ e ∈ settled, ∀ why, e.2.result e.1 = .error why →
    e.2.wrote? (c.frame e.1) = none ∨ ∃ bytes, e.2 = .cut bytes ∧ failed = some (e.1, bytes)

namespace Docket

variable {c : Client} {steps : List Step} {settled : List (Attempt × Fate)}
  {waiting accepted : List Attempt} {failed : Option (Attempt × List UInt8)}

theorem cutOff (h : Docket c steps settled waiting) (hrest : c.closed = true → c.AtRest)
    {a : Attempt} {bytes : List UInt8} (hmem : (a, .cut bytes) ∈ settled) :
    CutOff c steps a bytes := by
  have hclosed := h.shut _ hmem rfl
  obtain ⟨hended, htable⟩ := Client.run_atRest hrest steps hclosed
  obtain ⟨entry, hchecked, htorn⟩ := h.torn a bytes hmem
  have hid := Client.checked_id hchecked
  refine ⟨(h.fits _ hmem).1, hclosed, ?_, ⟨entry, hchecked, ?_⟩, ?_⟩
  · rw [Table.get?, htable]
    rfl
  · rw [← (Client.checked_of hchecked).origin_eq, ← hid]
    simpa [tearing, Client.shows] using htorn
  · intro later
    rw [Client.run_append, Client.andThen_snd, wireBytes, List.filterMap_append,
      List.flatten_append]
    exact (congrArg _ (hended.wireBytes_run later)).trans (List.append_nil _)

section Split

variable (h : Docket c steps settled waiting)
  (hsplit : settled.filter (fun e => e.2.registered) =
    accepted.map (fun a => (a, .whole)) ++ failed.toList.map fun e => (e.1, .cut e.2))

include hsplit

theorem registered_calls : (settled.filter fun e => e.2.registered).map Prod.fst =
    accepted ++ failed.toList.map Prod.fst := by
  rw [hsplit, List.map_append, List.map_map, List.map_map]
  exact congrArg (· ++ _) (List.map_id accepted)

/-- A call whose request is registered and refused is the one that is cut off. -/
theorem cut_of_refused {e : Attempt × Fate} (he : e ∈ settled) (hregistered : e.2.registered = true)
    {why : Error} (hresult : e.2.result e.1 = .error why) :
    ∃ bytes, e.2 = .cut bytes ∧ failed = some (e.1, bytes) := by
  have hmem : e ∈ settled.filter fun e => e.2.registered := List.mem_filter.2 ⟨he, hregistered⟩
  rw [hsplit] at hmem
  rcases List.mem_append.1 hmem with hwhole | hcut
  · obtain ⟨a, -, rfl⟩ := List.mem_map.1 hwhole
    cases hresult
  · obtain ⟨⟨a, bytes⟩, hlast, rfl⟩ := List.mem_map.1 hcut
    exact ⟨bytes, rfl, Option.mem_toList.1 hlast⟩

include h

theorem checked_calls : (accepted ++ failed.toList.map Prod.fst).map c.checked =
    (entries (c.history steps)).map .ok := by
  rw [h.entries_eq, ← registered_calls hsplit, List.map_map]
  rfl

theorem calls_sublist : accepted ++ failed.toList.map Prod.fst <+ attempts steps := by
  have hregistered : settled.filter (fun e => e.2.registered) <+
      settled.filter fun e => e.2.queued := by
    refine List.monotone_filter_right settled fun e he => ?_
    cases hfate : e.2 <;> simp [hfate, Fate.registered, Fate.queued] at he ⊢
  rw [← registered_calls hsplit]
  exact (hregistered.map Prod.fst).trans ((List.sublist_append_left _ _).trans h.ordered)

theorem wireBytes_eq : wireBytes (c.run steps).2 =
    accepted.flatMap c.frame ++ failed.elim [] Prod.snd := by
  rw [wireBytes, h.wrote_eq,
    filterMap_registered (fun e he => Fate.wrote?_of_unregistered he (c.frame e.1)), hsplit]
  cases failed <;> simp [Fate.wrote?, List.filterMap_map, List.flatMap_def]

theorem accepted_calls : (c.run steps).2.filterMap Effect.accepted? = accepted.map Attempt.id := by
  have haccepted : ∀ e : Attempt × Fate, e.2.registered = false →
      (Effect.answered e.1.id (e.2.result e.1)).accepted? = none := by
    intro e he
    cases hfate : e.2 <;> simp [hfate, Fate.registered, Fate.result, Effect.accepted?] at he ⊢
  rw [← filterMap_ofAnswer, h.told, List.filterMap_map]
  refine (filterMap_registered haccepted settled).trans ?_
  rw [hsplit]
  cases failed <;> simp [Fate.result, Effect.accepted?, List.filterMap_map]

end Split

theorem onWire (h : Docket c steps settled waiting) (hrest : c.closed = true → c.AtRest)
    (hsplit : settled.filter (fun e => e.2.registered) =
      accepted.map (fun a => (a, .whole)) ++ failed.toList.map fun e => (e.1, .cut e.2)) :
    OnWire c steps settled waiting accepted failed where
  docket := h
  split := hsplit
  order := calls_sublist h hsplit
  registered := by
    rw [← entries_ids]
    exact Client.map_of_checked (fun _ _ h => (Client.checked_id h).symm) (checked_calls h hsplit)
  framed := by
    intro a ha
    have hmem : c.checked a ∈ (entries (c.history steps)).map .ok :=
      checked_calls h hsplit ▸ List.mem_map_of_mem ha
    obtain ⟨entry, -, hentry⟩ := List.mem_map.1 hmem
    exact ⟨entry, _, hentry.symm, Client.frame_of_checked hentry.symm,
      Request.lineBreak_not_mem_frame entry.1⟩
  written := wireBytes_eq h hsplit
  started := by
    rw [c.started_entries]
    refine (Client.map_of_checked ?_ (checked_calls h hsplit)).symm
    intro a entry h
    rw [(Client.checked_of h).origin_eq]
  accepted_eq := accepted_calls h hsplit
  cut := by
    rintro a bytes rfl
    refine h.cutOff hrest (List.mem_of_mem_filter (p := fun e => e.2.registered) ?_)
    rw [hsplit]
    exact List.mem_append_right _ (List.mem_singleton_self _)
  refused := by
    intro e he why hresult
    cases hregistered : e.2.registered with
    | false => exact .inl (Fate.wrote?_of_unregistered hregistered _)
    | true => exact .inr (cut_of_refused hsplit he hregistered hresult)

end Docket

/-- In every run what reaches the wire is what the senders are told, whatever ids their calls
have. -/
theorem Client.wire_is_what_senders_are_told (connection : Connection) (config : Config)
    (stager : Stager) (scratch : Scratch) (steps : List Step) :
    ∃ settled waiting accepted failed, OnWire (Client.new connection config stager scratch) steps
      settled waiting accepted failed := by
  have hrest := Client.new_atRest connection config stager scratch
  obtain ⟨settled, waiting, hdocket⟩ := Client.exists_docket hrest rfl steps
  obtain ⟨accepted, failed, hsplit⟩ := registered_split hdocket.cut_last
  exact ⟨settled, waiting, accepted, failed, hdocket.onWire hrest hsplit⟩

/-- Of four calls one has its request written, one is refused because it has the same id, one has
its request cut off, and one is still queued. -/
theorem Client.wire_is_what_senders_are_told_when_cut_off :
    let steps : List Step := [.submit ⟨"a", "", "buffer", .default, .text "1", {}⟩,
      .submit ⟨"a", "", "buffer", .default, .text "2", {}⟩,
      .submit ⟨"b", "", "buffer", .default, .text "3", {}⟩,
      .submit ⟨"c", "", "buffer", .default, .text "4", {}⟩, .take, .take, .failWrites 3, .take]
    ((Client.new { peer := "repl" } {} {}).run steps).1.closed = true ∧
      ∃ settled waiting accepted failed, OnWire (Client.new { peer := "repl" } {} {}) steps
        settled waiting accepted failed :=
  ⟨rfl, Client.wire_is_what_senders_are_told { peer := "repl" } {} {} {} _⟩

end RemoteEval
