import Mathlib.Data.List.TakeWhile
import RemoteEval.Proofs.Client.Steps
import RemoteEval.Proofs.Table

/-!
The life of one request in a history: the moments that are about it, and how they end it. A
request that waits is decided by the first response that carries its id, or by the end of the
loop, whichever comes first.
-/
namespace RemoteEval

def Command.sends? (id : RequestId) : Command → Option (Request × Inflight)
  | .send request inflight => if request.id = id then some (request, inflight) else none
  | .outstanding _ => none

def Client.queued (c : Client) (id : RequestId) : List (Request × Inflight) :=
  c.queue.filterMap (Command.sends? id)

namespace Moment

def about (id : RequestId) : Moment → Bool
  | .registered request _ _ => request.id == id
  | .answered other _ => other == id
  | .finished other _ _ => other == id
  | .dispatched _ => false
  | .ended _ => false

def registers (id : RequestId) : Moment → Bool
  | .registered request _ _ => request.id == id
  | _ => false

/-- How a moment ends a request that waits: by the response to it, or by the end of the loop. -/
def decides (id : RequestId) : Moment → Option Completion
  | .dispatched response =>
    match response.verdict? with
    | some (other, completion) => if other = id then some completion else none
    | none => none
  | .ended _ => some (.failure .connectionClosed)
  | _ => none

def registered? : Moment → Option RequestId
  | .registered request _ _ => some request.id
  | _ => none

def finished? : Moment → Option (RequestId × Completion)
  | .finished id _ completion => some (id, completion)
  | _ => none

end Moment

def dealings (id : RequestId) (moments : List Moment) : List Moment :=
  moments.filter (Moment.about id)

/-- How moments end a request that waits before them: by the first of them that decides it. -/
def outcome (id : RequestId) (moments : List Moment) : Option Completion :=
  moments.findSome? (Moment.decides id)

/-- How a history ends a request: as the moments from its registration on decide. -/
def decided (id : RequestId) (history : List Moment) : Option Completion :=
  outcome id (history.dropWhile fun moment => !moment.registers id)

theorem dealings_append (id : RequestId) (first second : List Moment) :
    dealings id (first ++ second) = dealings id first ++ dealings id second :=
  List.filter_append first second

theorem outcome_append (id : RequestId) (first second : List Moment) :
    outcome id (first ++ second) = (outcome id first).or (outcome id second) :=
  List.findSome?_append

theorem Moment.about_of_registers {id : RequestId} {moment : Moment}
    (h : moment.registers id = true) : moment.about id = true := by
  cases moment <;> first | exact h | cases h

/-- Before its registration nothing decides a request. -/
theorem decided_append_of_dealings_nil {id : RequestId} {history : List Moment}
    (h : dealings id history = []) (moments : List Moment) :
    decided id (history ++ moments) = decided id moments := by
  have hnone : (history.dropWhile fun moment => !moment.registers id) = [] := by
    rw [List.dropWhile_eq_nil_iff]
    intro moment hmoment
    have habout := List.filter_eq_nil_iff.1 h moment hmoment
    simp only [Bool.not_eq_true']
    by_contra hregisters
    exact habout (Moment.about_of_registers (by simpa using hregisters))
  unfold decided
  rw [List.dropWhile_append, if_pos (by simp [hnone])]

theorem decided_append_of_registers {id : RequestId} {history : List Moment} {moment : Moment}
    (hmem : moment ∈ history) (hregisters : moment.registers id = true) (moments : List Moment) :
    decided id (history ++ moments) = (decided id history).or (outcome id moments) := by
  have hsome : (history.dropWhile fun moment => !moment.registers id) ≠ [] := by
    intro hnil
    have hnot := List.dropWhile_eq_nil_iff.1 hnil moment hmem
    simp [hregisters] at hnot
  unfold decided
  rw [List.dropWhile_append, if_neg (by simpa using hsome), outcome_append]

/-- After its registration the first moment that decides a request does so for good. -/
theorem decided_append_of_dealings {id : RequestId} {history rest : List Moment}
    {request : Request} {inflight : Inflight} {written : List UInt8}
    (h : dealings id history = .registered request inflight written :: rest)
    (moments : List Moment) :
    decided id (history ++ moments) = (decided id history).or (outcome id moments) := by
  have hmem : Moment.registered request inflight written ∈ dealings id history := by simp [h]
  obtain ⟨hhistory, habout⟩ := List.mem_filter.1 hmem
  exact decided_append_of_registers hhistory habout moments

/-- How often moments of some kind name an id is seen from those in its life. -/
theorem count_dealings {kind : Moment → Option RequestId}
    (habout : ∀ moment id, kind moment = some id → moment.about id = true) (id : RequestId)
    (history : List Moment) :
    (history.filterMap kind).count id = ((dealings id history).filterMap kind).count id := by
  induction history with
  | nil => rfl
  | cons moment rest ih =>
    cases hmoment : moment.about id with
    | true =>
      rw [dealings, List.filter_cons_of_pos hmoment, List.filterMap_cons, List.filterMap_cons]
      cases kind moment with
      | none => exact ih
      | some other => rw [List.count_cons, List.count_cons, ih, dealings]
    | false =>
      rw [dealings, List.filter_cons_of_neg (by simp [hmoment]), List.filterMap_cons]
      cases hkind : kind moment with
      | none => exact ih
      | some other =>
        have hne : other ≠ id := by
          rintro rfl
          rw [habout moment other hkind] at hmoment
          cases hmoment
        rw [List.count_cons_of_ne hne]
        exact ih

/-- No id is repeated among moments if none is among those of any one request. -/
theorem nodup_of_dealings {kind : Moment → Option RequestId}
    (habout : ∀ moment id, kind moment = some id → moment.about id = true) {history : List Moment}
    (honce : ∀ id, ((dealings id history).filterMap kind).length ≤ 1) :
    (history.filterMap kind).Nodup := by
  rw [List.nodup_iff_count]
  intro id
  rw [count_dealings habout]
  exact List.count_le_length.trans (honce id)

/-- What is queued under an id is refused with the rest of the queue. -/
theorem dealings_refusals (id : RequestId) (commands : List Command) :
    dealings id (commands.filterMap Command.refusal) =
      (commands.filterMap (Command.sends? id)).map fun _ =>
        .answered id (.error .connectionClosed) := by
  induction commands with
  | nil => rfl
  | cons command rest ih =>
    cases command with
    | outstanding n => exact ih
    | send request inflight =>
      rw [List.filterMap_cons_some (f := Command.refusal) rfl]
      by_cases hid : request.id = id
      · rw [List.filterMap_cons_some (show Command.sends? id (.send request inflight) =
          some (request, inflight) by simp [Command.sends?, hid])]
        rw [dealings, List.filter_cons_of_pos (by simpa [Moment.about] using hid), hid]
        exact congrArg (_ :: ·) ih
      · rw [List.filterMap_cons_none (show Command.sends? id (.send request inflight) = none by
          simp [Command.sends?, hid])]
        rw [dealings, List.filter_cons_of_neg (by simpa [Moment.about] using hid)]
        exact ih

namespace Client

/-- The loop ends for a request where it stands: it is finished if it is tracked, and refused if
it is queued. -/
theorem dealings_closing (c : Client) (id : RequestId) (ending : Ending) :
    dealings id (c.closing ending) =
      ((c.table.get? id).toList.map fun inflight =>
        .finished id inflight (.failure .connectionClosed)) ++
      (c.queued id).map fun _ => .answered id (.error .connectionClosed) := by
  have htracked : dealings id (c.table.entries.map fun entry =>
      Moment.finished entry.1 entry.2 (.failure .connectionClosed)) =
        (c.table.get? id).toList.map fun inflight =>
          .finished id inflight (.failure .connectionClosed) := by
    have hfilter := congrArg (List.map fun entry : RequestId × Inflight =>
      Moment.finished entry.1 entry.2 (.failure .connectionClosed)) (c.table.filter_entries id)
    rw [List.map_map] at hfilter
    rw [dealings, List.filter_map]
    exact hfilter
  have hsplit : dealings id (c.closing ending) =
      dealings id (c.table.entries.map fun entry =>
        Moment.finished entry.1 entry.2 (.failure .connectionClosed)) ++
      dealings id (c.queue.filterMap Command.refusal) := by
    rw [← dealings_append]
    exact List.filter_cons_of_neg (by simp [Moment.about])
  rw [hsplit, htracked, dealings_refusals]
  rfl

theorem outcome_closing (c : Client) (id : RequestId) (ending : Ending) :
    outcome id (c.closing ending) = some (.failure .connectionClosed) := rfl

end Client

end RemoteEval
