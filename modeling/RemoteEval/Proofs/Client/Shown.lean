import Mathlib.Data.List.Basic
import RemoteEval.Proofs.Client.History
import RemoteEval.Proofs.Client.Life

/-!
Kinds of effects, and what a run shows of each. Only the moments about a request show anything of
the effects that carry its id.
-/
namespace RemoteEval

namespace Effect

def ofStart : Effect → Bool
  | .editor (.progress _ .started) => true
  | _ => false

/-- Whether an effect belongs to the end of a request: its context is told that work is over, its
callback runs, or its ticket is resolved. -/
def ofEnd : Effect → Bool
  | .editor (.progress _ .stopped) => true
  | .callback _ _ => true
  | .resolved _ _ => true
  | _ => false

def answers (id : RequestId) : Effect → Bool
  | .answered other _ => other == id
  | _ => false

def ofAnswer : Effect → Bool
  | .answered _ _ => true
  | _ => false

def wrote? : Effect → Option (List UInt8)
  | .wrote bytes => some bytes
  | _ => none

def resolves (id : RequestId) : Effect → Bool
  | .resolved other _ => other == id
  | _ => false

theorem ofRequest_of_ofStart {effect : Effect} (h : effect.ofStart = true) :
    effect.ofRequest = true := by
  unfold ofStart at h
  split at h
  · rfl
  · cases h

theorem ofRequest_of_ofEnd {effect : Effect} (h : effect.ofEnd = true) :
    effect.ofRequest = true := by
  unfold ofEnd at h
  split at h
  · rfl
  · rfl
  · rfl
  · cases h

theorem ofRequest_of_answers {id : RequestId} {effect : Effect} (h : effect.answers id = true) :
    effect.ofRequest = true := by
  unfold answers at h
  split at h
  · rfl
  · cases h

theorem ofEnd_of_resolves {id : RequestId} {effect : Effect} (h : effect.resolves id = true) :
    effect.ofEnd = true := by
  unfold resolves at h
  split at h
  · rfl
  · cases h

end Effect

def Moment.reply? : Moment → Option Effect
  | .answered id result => some (.answered id result)
  | _ => none

def Moment.wrote? : Moment → Option (List UInt8)
  | .registered _ _ written => some written
  | _ => none

def wireBytes (effects : List Effect) : List UInt8 := (effects.filterMap Effect.wrote?).flatten

/-- Effects of a narrower kind may be looked for among those of a wider one. -/
theorem filter_narrow {narrow wide : Effect → Bool}
    (h : ∀ effect, narrow effect = true → wide effect = true) (effects : List Effect) :
    effects.filter narrow = (effects.filter wide).filter narrow := by
  rw [List.filter_filter]
  refine List.filter_congr ?_
  intro effect _
  cases hnarrow : narrow effect with
  | false => rfl
  | true => rw [h effect hnarrow]; rfl

/-- Moments that show one thing each, if any, show the list of those things. -/
theorem flatMap_shown {β : Type} {shown : Moment → List Effect} {thing : Moment → Option β}
    {view : β → List Effect} {moments : List Moment}
    (h : ∀ moment ∈ moments, shown moment = (thing moment).elim [] view) :
    moments.flatMap shown = (moments.filterMap thing).flatMap view := by
  induction moments with
  | nil => rfl
  | cons moment rest ih =>
    have hrest := ih fun other hother => h other (List.mem_cons_of_mem moment hother)
    rw [List.flatMap_cons, h moment List.mem_cons_self, hrest, List.filterMap_cons]
    cases thing moment <;> rfl

namespace Client

/-- What a moment shows is seen in one piece. -/
theorem isInfix_shows {c : Client} {steps : List Step} {moment : Moment}
    (h : moment ∈ c.history steps) :
    List.IsInfix (c.shows moment) (aboutRequests (c.run steps).2) := by
  obtain ⟨earlier, later, hsplit⟩ := List.append_of_mem h
  rw [aboutRequests_run, hsplit, List.flatMap_append, List.flatMap_cons, ← List.append_assoc]
  exact ⟨_, _, rfl⟩

/-- Effects of some kind are seen in a run as its moments show them. -/
theorem filter_run (c : Client) (steps : List Step) {kind : Effect → Bool}
    (hkind : ∀ effect, kind effect = true → effect.ofRequest = true) :
    (c.run steps).2.filter kind =
      (c.history steps).flatMap fun moment => (c.shows moment).filter kind := by
  have hfilter : (c.run steps).2.filter kind = (aboutRequests (c.run steps).2).filter kind :=
    filter_narrow hkind _
  rw [hfilter, aboutRequests_run, List.filter_flatMap]

/-- Effects that show only the moments of one request. -/
theorem filter_run_dealings (c : Client) (steps : List Step) {kind : Effect → Bool}
    {id : RequestId} (hkind : ∀ effect, kind effect = true → effect.ofRequest = true)
    (hothers : ∀ moment, moment.about id = false → (c.shows moment).filter kind = []) :
    (c.run steps).2.filter kind =
      (dealings id (c.history steps)).flatMap fun moment => (c.shows moment).filter kind := by
  rw [filter_run c steps hkind]
  induction c.history steps with
  | nil => rfl
  | cons moment rest ih =>
    cases habout : moment.about id with
    | false =>
      rw [List.flatMap_cons, hothers moment habout, ih, dealings, dealings,
        List.filter_cons_of_neg (by simp [habout])]
      rfl
    | true =>
      rw [List.flatMap_cons, ih, dealings, dealings, List.filter_cons_of_pos habout,
        List.flatMap_cons]

/-- Of the end of a request only callback, progress and ticket end it. -/
theorem filter_ending_ofEnd (c : Client) (id : RequestId) (inflight : Inflight)
    (completion : Completion) :
    (c.ending id inflight completion).filter Effect.ofEnd =
      (if inflight.callbacks.wants completion then [.callback id completion] else []) ++
        [.editor (.progress inflight.origin .stopped), .resolved id completion] := by
  have hcomplaint : (c.complaint inflight.origin completion).filter Effect.ofEnd = [] := by
    unfold complaint displayed
    split
    · split <;> rfl
    · rfl
  have hrelease : (inflight.staged.toList.map (Effect.release id)).filter Effect.ofEnd = [] := by
    cases inflight.staged <;> rfl
  have hcalled : (if inflight.callbacks.wants completion then [Effect.callback id completion]
      else []).filter Effect.ofEnd =
        if inflight.callbacks.wants completion then [.callback id completion] else [] := by
    split <;> rfl
  simp only [ending, List.filter_append, hcomplaint, hrelease, hcalled, List.nil_append,
    List.append_nil]
  rfl

theorem filter_ending_resolves (c : Client) (id other : RequestId) (inflight : Inflight)
    (completion : Completion) :
    (c.ending id inflight completion).filter (Effect.resolves other) =
      if id = other then [.resolved id completion] else [] := by
  rw [filter_narrow fun _ => Effect.ofEnd_of_resolves, filter_ending_ofEnd, List.filter_append]
  by_cases hid : id = other
  · rw [if_pos hid]
    split <;> simp [Effect.resolves, hid]
  · rw [if_neg hid]
    split <;> simp [Effect.resolves, hid]

/-- What the end of a request consists of. -/
theorem mem_ending {c : Client} {id : RequestId} {inflight : Inflight} {completion : Completion}
    {effect : Effect} (h : effect ∈ c.ending id inflight completion) :
    effect ∈ c.complaint inflight.origin completion ∨ effect = .callback id completion ∨
      (∃ path, effect = .release id path) ∨
      effect = .editor (.progress inflight.origin .stopped) ∨ effect = .resolved id completion := by
  unfold ending at h
  simp only [List.mem_append] at h
  rcases h with ((hcomplaint | hcalled) | hreleased) | hended
  · exact .inl hcomplaint
  · split at hcalled
    · exact .inr (.inl (List.mem_singleton.1 hcalled))
    · cases hcalled
  · obtain ⟨path, -, rfl⟩ := List.mem_map.1 hreleased
    exact .inr (.inr (.inl ⟨path, rfl⟩))
  · simp only [List.mem_cons, List.not_mem_nil, or_false] at hended
    exact .inr (.inr (.inr hended))

/-- A complaint is a diagnostic or a notice. -/
theorem mem_complaint {c : Client} {origin : String} {completion : Completion} {effect : Effect}
    (h : effect ∈ c.complaint origin completion) :
    (∃ text, effect = .editor (.diagnostic c.session text)) ∨
      ∃ message, effect = .editor (.notice origin message) := by
  unfold complaint displayed at h
  split at h
  · split at h
    · exact .inl ⟨_, List.mem_singleton.1 h⟩
    · exact .inr ⟨_, List.mem_singleton.1 h⟩
  · cases h

/-- The end of a request starts nothing and answers no call. -/
theorem of_mem_ending {c : Client} {id : RequestId} {inflight : Inflight}
    {completion : Completion} {effect : Effect} (h : effect ∈ c.ending id inflight completion) :
    effect.ofStart = false ∧ ∀ other, effect.answers other = false := by
  rcases mem_ending h with hcomplaint | rfl | ⟨path, rfl⟩ | rfl | rfl
  · rcases mem_complaint hcomplaint with ⟨text, rfl⟩ | ⟨message, rfl⟩ <;> exact ⟨rfl, fun _ => rfl⟩
  all_goals exact ⟨rfl, fun _ => rfl⟩

/-- A call is told what the moments in the life of its request say. -/
theorem answers_run (c : Client) (steps : List Step) (id : RequestId) :
    (c.run steps).2.filter (Effect.answers id) =
      (dealings id (c.history steps)).filterMap Moment.reply? := by
  have hending : ∀ other inflight completion,
      (c.ending other inflight completion).filter (Effect.answers id) = [] := by
    intro other inflight completion
    refine List.filter_eq_nil_iff.2 ?_
    intro effect heffect
    rw [(of_mem_ending heffect).2]
    exact Bool.false_ne_true
  have hothers : ∀ moment, moment.about id = false →
      (c.shows moment).filter (Effect.answers id) = [] := by
    intro moment hmoment
    cases moment with
    | answered other result => exact List.filter_cons_of_neg (by
      simpa [Effect.answers, Moment.about] using hmoment)
    | finished other inflight completion => exact hending other inflight completion
    | _ => rfl
  have hshown : ∀ moment ∈ dealings id (c.history steps),
      (c.shows moment).filter (Effect.answers id) = moment.reply?.elim [] fun reply => [reply] := by
    intro moment hmoment
    cases moment with
    | answered other result =>
      have habout := (List.mem_filter.1 hmoment).2
      exact List.filter_cons_of_pos habout
    | finished other inflight completion => exact hending other inflight completion
    | _ => rfl
  rw [c.filter_run_dealings steps (fun _ => Effect.ofRequest_of_answers) hothers,
    flatMap_shown hshown, List.flatMap_singleton']

theorem filterMap_aboutRequests {β : Type} {thing : Effect → Option β}
    (hthing : ∀ effect, effect.ofRequest = false → thing effect = none) (effects : List Effect) :
    (aboutRequests effects).filterMap thing = effects.filterMap thing := by
  rw [aboutRequests, List.filterMap_filter]
  refine List.filterMap_congr ?_
  intro effect _
  cases hrequest : effect.ofRequest with
  | false => exact (hthing effect hrequest).symm
  | true => rfl

/-- Things that effects are about are seen in a run as its moments show them. -/
theorem filterMap_run {β : Type} (c : Client) (steps : List Step) {thing : Effect → Option β}
    {part : Moment → Option β}
    (hthing : ∀ effect, effect.ofRequest = false → thing effect = none)
    (hshown : ∀ moment, (c.shows moment).filterMap thing = (part moment).toList) :
    (c.run steps).2.filterMap thing = (c.history steps).filterMap part := by
  rw [← filterMap_aboutRequests hthing, aboutRequests_run, List.filterMap_flatMap,
    List.filterMap_eq_flatMap_toList]
  simp only [hshown]

theorem filterMap_ending {β : Type} {thing : Effect → Option β}
    (heditor : ∀ call, thing (.editor call) = none)
    (hcallback : ∀ id completion, thing (.callback id completion) = none)
    (hrelease : ∀ id path, thing (.release id path) = none)
    (hresolved : ∀ id completion, thing (.resolved id completion) = none) (c : Client)
    (id : RequestId) (inflight : Inflight) (completion : Completion) :
    (c.ending id inflight completion).filterMap thing = [] := by
  rw [List.filterMap_eq_nil_iff]
  intro effect heffect
  rcases mem_ending heffect with hcomplaint | rfl | ⟨path, rfl⟩ | rfl | rfl
  · rcases mem_complaint hcomplaint with ⟨text, rfl⟩ | ⟨message, rfl⟩ <;> exact heditor _
  · exact hcallback id completion
  · exact hrelease id path
  · exact heditor _
  · exact hresolved id completion

theorem wrote_run (c : Client) (steps : List Step) :
    (c.run steps).2.filterMap Effect.wrote? = (c.history steps).filterMap Moment.wrote? := by
  refine c.filterMap_run steps ?_ ?_
  · intro effect heffect
    cases effect <;> first | rfl | cases heffect
  · intro moment
    cases moment with
    | finished id inflight completion =>
      exact filterMap_ending (fun _ => rfl) (fun _ _ => rfl) (fun _ _ => rfl) (fun _ _ => rfl) c
        id inflight completion
    | _ => rfl

/-- What calls are told in a run is what the moments of its history say. -/
theorem replies_run (c : Client) (steps : List Step) :
    (c.run steps).2.filter Effect.ofAnswer = (c.history steps).filterMap Moment.reply? := by
  have hkind : ∀ effect : Effect, effect.ofAnswer = true → effect.ofRequest = true := by
    intro effect heffect
    cases effect <;> first | rfl | cases heffect
  have hshown : ∀ moment ∈ c.history steps, (c.shows moment).filter Effect.ofAnswer =
      moment.reply?.elim [] fun reply => [reply] := by
    intro moment _
    cases moment with
    | finished id inflight completion =>
      refine List.filter_eq_nil_iff.2 ?_
      intro effect heffect hanswer
      have hnone := (of_mem_ending heffect).2
      cases effect with
      | answered other result => simpa [Effect.answers] using hnone other
      | _ => cases hanswer
    | _ => rfl
  rw [c.filter_run steps hkind, flatMap_shown hshown, List.flatMap_singleton']

end Client

end RemoteEval
