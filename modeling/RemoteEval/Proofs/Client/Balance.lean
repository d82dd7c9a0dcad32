import Mathlib.Data.List.Perm.Basic
import RemoteEval.Proofs.Client.Shown
import RemoteEval.Proofs.Client.Winding

/-!
Progress and the table. A context is told that work begins when a request of it enters the table,
and that work is over when the request has left it; so at any time the beginnings without an end are
those of the requests in the table. That is a matter of what goes into the table and comes out of
it, which no step loses anything of.
-/
namespace RemoteEval

open scoped List

def Effect.tells (context : String) (change : Progress) : Effect → Bool
  | .editor (.progress other told) => told == change && other == context
  | _ => false

def told (context : String) (change : Progress) (effects : List Effect) : Nat :=
  effects.countP (Effect.tells context change)

def comesFrom (context : String) (entry : RequestId × Inflight) : Bool :=
  entry.2.origin == context

def Client.tracked (c : Client) (context : String) : Nat :=
  c.table.entries.countP (comesFrom context)

def Moment.leaving? : Moment → Option (RequestId × Inflight)
  | .finished id inflight _ => some (id, inflight)
  | _ => none

def leavings (moments : List Moment) : List (RequestId × Inflight) :=
  moments.filterMap Moment.leaving?

theorem leavings_append (first second : List Moment) :
    leavings (first ++ second) = leavings first ++ leavings second :=
  List.filterMap_append

section Told

variable (context : String) (change : Progress)

theorem told_append (first second : List Effect) :
    told context change (first ++ second) = told context change first + told context change second :=
  List.countP_append

theorem told_mono {first second : List Effect} (h : first <+ second) :
    told context change first ≤ told context change second :=
  h.countP_le

theorem Effect.ofRequest_of_tells {context : String} {change : Progress} {effect : Effect}
    (h : effect.tells context change = true) : effect.ofRequest = true := by
  unfold tells at h
  split at h
  · rfl
  · cases h

/-- Contexts are told of requests and of nothing else. -/
theorem told_aboutRequests (effects : List Effect) :
    told context change (Client.aboutRequests effects) = told context change effects := by
  rw [told, told, List.countP_eq_length_filter, List.countP_eq_length_filter]
  exact congrArg List.length (filter_narrow (fun _ => Effect.ofRequest_of_tells) effects).symm

end Told

namespace Client

variable (context : String)

/-- The end of a request tells its context that work is over, once, and of no beginning. -/
theorem told_ending (c : Client) (id : RequestId) (inflight : Inflight) (completion : Completion) :
    told context .started (c.ending id inflight completion) = 0 ∧
      told context .stopped (c.ending id inflight completion) =
        [(id, inflight)].countP (comesFrom context) := by
  constructor
  · rw [told, List.countP_eq_zero]
    intro effect heffect
    have hstart := (of_mem_ending heffect).1
    unfold Effect.ofStart at hstart
    unfold Effect.tells
    split
    · next other change => cases change <;> simp at hstart ⊢
    · exact Bool.false_ne_true
  · have hend : ∀ effect : Effect, effect.tells context .stopped = true → effect.ofEnd = true := by
      intro effect heffect
      unfold Effect.tells at heffect
      split at heffect
      · next other change => cases change <;> simp [Effect.ofEnd] at heffect ⊢
      · cases heffect
    rw [told, List.countP_eq_length_filter, filter_narrow hend, filter_ending_ofEnd]
    by_cases horigin : inflight.origin = context
    · split <;> simp [Effect.tells, comesFrom, horigin]
    · split <;> simp [Effect.tells, comesFrom, horigin]

/-- A context is told of a beginning for each of its requests that is registered, and of an end
for each that ends. -/
theorem told_shows (c : Client) (moments : List Moment) :
    told context .started (moments.flatMap c.shows) =
        ((entries moments).map tracking).countP (comesFrom context) ∧
      told context .stopped (moments.flatMap c.shows) =
        (leavings moments).countP (comesFrom context) := by
  induction moments with
  | nil => exact ⟨rfl, rfl⟩
  | cons moment rest ih =>
    have hfirst : told context .started (c.shows moment) =
          ((entries [moment]).map tracking).countP (comesFrom context) ∧
        told context .stopped (c.shows moment) =
          (leavings [moment]).countP (comesFrom context) := by
      cases moment with
      | registered request inflight written =>
        refine ⟨?_, rfl⟩
        simp [shows, told, Effect.tells, entries, Moment.entry?, tracking, comesFrom,
          List.countP_cons]
      | finished id inflight completion => exact c.told_ending context id inflight completion
      | _ => exact ⟨rfl, rfl⟩
    have hentries : entries (moment :: rest) = entries [moment] ++ entries rest :=
      entries_append [moment] rest
    have hleavings : leavings (moment :: rest) = leavings [moment] ++ leavings rest :=
      leavings_append [moment] rest
    rw [List.flatMap_cons, told_append, told_append, hentries, hleavings, List.map_append,
      List.countP_append, List.countP_append, ih.1, ih.2, hfirst.1, hfirst.2]
    exact ⟨rfl, rfl⟩

/-- So it is with effects that show moments among other things. -/
theorem told_of_shown {c : Client} {effects : List Effect} {moments : List Moment}
    (h : aboutRequests effects = moments.flatMap c.shows) :
    told context .started effects = ((entries moments).map tracking).countP (comesFrom context) ∧
      told context .stopped effects = (leavings moments).countP (comesFrom context) := by
  rw [← told_aboutRequests context .started, ← told_aboutRequests context .stopped, h]
  exact c.told_shows context moments

/-- Moments that only answer calls tell contexts nothing. -/
theorem told_of_answered {c : Client} {effects : List Effect} {moments : List Moment}
    (h : aboutRequests effects = moments.flatMap c.shows)
    (hanswered : ∀ moment ∈ moments, ∃ id result, moment = .answered id result) :
    told context .started effects = 0 ∧ told context .stopped effects = 0 := by
  have hentries : entries moments = [] := filterMap_of_answered (fun _ _ => rfl) hanswered
  have hleavings : leavings moments = [] := filterMap_of_answered (fun _ _ => rfl) hanswered
  have htold := told_of_shown context h
  rw [hentries, hleavings] at htold
  exact htold

/-- The end of the loop ends what is in the table. -/
theorem leavings_closing (c : Client) (ending : Ending) :
    leavings (c.closing ending) = c.table.entries := by
  rw [leavings, filterMap_closing (fun _ _ => rfl) fun _ => rfl]
  exact List.filterMap_some

namespace Change

variable {c d : Client} {s : Step} {moments : List Moment}

/-- What was in the table or is registered in a step either ends in it or is in the table after
it. -/
theorem conserves (h : c.Change s moments d) :
    (c.table.entries ++ (entries moments).map tracking).Perm
      (leavings moments ++ d.table.entries) := by
  have hkept : (c.table.entries ++ []).Perm c.table.entries := by rw [List.append_nil]
  cases h with
  | accepted request inflight rest table connection hqueue hentries =>
    rw [hentries]
    exact List.Perm.refl _
  | unwritten request inflight rest written fault connection scratch hqueue hsend hwithout =>
    rw [entries_append, entries_closing, leavings_append, leavings_closing]
    simp only [Table.empty, List.append_nil]
    exact List.perm_append_comm
  | responded response id inflight completion connection scratch htracked hwithout =>
    exact hkept.trans (Table.entries_perm_erase htracked)
  | ended ending connection scratch hloop hopen hwithout =>
    rw [entries_closing, leavings_closing]
    exact List.Perm.refl _
  | _ => exact hkept

/-- If a step registers a request it does so before anything else, and no more than one. -/
theorem registered_first (h : c.Change s moments d) :
    entries moments = [] ∨ ∃ request inflight written rest,
      moments = .registered request inflight written :: rest ∧ entries rest = [] := by
  cases h with
  | accepted request inflight rest table connection hqueue hentries =>
    exact .inr ⟨request, inflight, request.wire, _, rfl, rfl⟩
  | unwritten request inflight rest written fault connection scratch hqueue hsend hwithout =>
    refine .inr ⟨request, inflight, written, _, rfl, ?_⟩
    exact entries_closing { c with queue := rest } (.io fault)
  | ended ending connection scratch hloop hopen hwithout => exact .inl (entries_closing _ _)
  | _ => exact .inl rfl

end Change

/-- What was in the table before a run or is registered in it either ends in it or is in the table
after it. -/
theorem conserves_run (c : Client) (steps : List Step) :
    (c.table.entries ++ (entries (c.history steps)).map tracking).Perm
      (leavings (c.history steps) ++ (c.run steps).1.table.entries) := by
  induction steps generalizing c with
  | nil => exact List.perm_append_comm
  | cons s rest ih =>
    have hstep := (c.step_change s).conserves
    have hrest := ih (c.step s).1
    rw [history, entries_append, leavings_append, List.map_append, run, andThen_fst]
    calc c.table.entries ++ ((entries (c.happens s)).map tracking ++
          (entries ((c.step s).1.history rest)).map tracking)
        _ = (c.table.entries ++ (entries (c.happens s)).map tracking) ++
            (entries ((c.step s).1.history rest)).map tracking := (List.append_assoc _ _ _).symm
        _ ~ (leavings (c.happens s) ++ (c.step s).1.table.entries) ++
            (entries ((c.step s).1.history rest)).map tracking := hstep.append_right _
        _ = leavings (c.happens s) ++ ((c.step s).1.table.entries ++
            (entries ((c.step s).1.history rest)).map tracking) := List.append_assoc _ _ _
        _ ~ leavings (c.happens s) ++ (leavings ((c.step s).1.history rest) ++
            ((c.step s).1.run rest).1.table.entries) := hrest.append_left _
        _ = _ := (List.append_assoc _ _ _).symm

theorem balance_step (c : Client) (s : Step) :
    c.tracked context + told context .started (c.step s).2 =
      told context .stopped (c.step s).2 + (c.step s).1.tracked context := by
  have hcount := (c.step_change s).conserves.countP_eq (comesFrom context)
  have htold := told_of_shown context (c.aboutRequests_step s)
  rw [List.countP_append, List.countP_append] at hcount
  rw [htold.1, htold.2]
  exact hcount

theorem balance_run (c : Client) (steps : List Step) :
    c.tracked context + told context .started (c.run steps).2 =
      told context .stopped (c.run steps).2 + (c.run steps).1.tracked context := by
  have hcount := (c.conserves_run steps).countP_eq (comesFrom context)
  have htold := told_of_shown context (c.aboutRequests_run steps)
  rw [List.countP_append, List.countP_append] at hcount
  rw [htold.1, htold.2]
  exact hcount

/-- Even amid a step no context has been told of more ends than there are requests of it. -/
theorem nonneg_step {c : Client} {s : Step} {seen : List Effect} (h : seen <+: (c.step s).2) :
    told context .stopped seen ≤ c.tracked context + told context .started seen := by
  have hbalance := c.balance_step context s
  have hstopped := told_mono context .stopped h.sublist
  have hstarted := (told_of_shown context (c.aboutRequests_step s)).1
  rcases (c.step_change s).registered_first with
    hnone | ⟨request, inflight, written, rest, hmoments, hrest⟩
  · rw [hnone, List.map_nil, List.countP_nil] at hstarted
    omega
  · -- The beginning is the first thing that is seen of the step, so nothing comes before it.
    have hshown : aboutRequests seen <+: (c.happens s).flatMap c.shows := by
      rw [← aboutRequests_step]
      exact h.filter _
    rw [hmoments, List.flatMap_cons] at hshown
    rcases List.prefix_cons_iff.1 hshown with hnil | ⟨others, hcons, -⟩
    · rw [← told_aboutRequests context .stopped, hnil]
      exact Nat.zero_le _
    · have hfirst : told context .started
          [.editor (.progress inflight.origin .started)] ≤ told context .started seen := by
        rw [← told_aboutRequests context .started seen, hcons]
        exact told_mono context .started (List.singleton_sublist.2 List.mem_cons_self)
      have hone : told context .started (c.step s).2 =
          told context .started [.editor (.progress inflight.origin .started)] := by
        have hentries : entries (.registered request inflight written :: rest) =
            [(request, inflight)] := congrArg (_ :: ·) hrest
        rw [hstarted, hmoments, hentries]
        simp [told, Effect.tells, tracking, comesFrom, List.countP_cons]
      omega

theorem nonneg_run {c : Client} {steps : List Step} {seen : List Effect}
    (h : seen <+: (c.run steps).2) :
    told context .stopped seen ≤ c.tracked context + told context .started seen := by
  induction steps generalizing c seen with
  | nil =>
    rw [List.prefix_nil.1 h]
    exact Nat.zero_le _
  | cons s rest ih =>
    rw [run, andThen_snd] at h
    rcases List.prefix_or_prefix_of_prefix h (List.prefix_append (c.step s).2 _) with
      hfirst | ⟨later, rfl⟩
    · exact nonneg_step context hfirst
    · have hlater := ih ((List.prefix_append_right_inj _).1 h)
      have hbalance := c.balance_step context s
      rw [told_append, told_append]
      omega

/-- However others race with the end of the loop, the context of each request that was in the table
is told once that work is over, and nobody is told of a beginning. -/
theorem Winds.told {c : Client} {left : List (RequestId × Inflight)} {others : List Step}
    {out : Client × List Effect} (h : c.Winds left others out) (hopen : c.closed = false) :
    told context .started out.2 = 0 ∧
      told context .stopped out.2 = left.countP (comesFrom context) := by
  induction h with
  | done c =>
    exact told_of_answered context (aboutRequests_refuseAll _ c.queue)
      (answered_of_refusals c.queue)
  | finish c id inflight hrest ih =>
    obtain ⟨hstarted, hstopped⟩ := ih (by rw [finish_fst]; exact hopen)
    have hending := c.told_ending context id inflight (.failure .connectionClosed)
    rw [← aboutRequests_finish_closed, told_aboutRequests, told_aboutRequests] at hending
    rw [andThen_snd, told_append, told_append, hstarted, hstopped, hending.1, hending.2,
      ← List.countP_append]
    exact ⟨rfl, rfl⟩
  | amid c s hother hrest ih =>
    have hamid := (c.step_change s).amid hopen hother
    obtain ⟨hstarted, hstopped⟩ := ih hamid.opened
    have hnothing := told_of_answered context (c.aboutRequests_step s) hamid.answered
    rw [andThen_snd, told_append, told_append, hstarted, hstopped, hnothing.1, hnothing.2,
      Nat.zero_add, Nat.zero_add]
    exact ⟨rfl, rfl⟩

end Client

end RemoteEval
