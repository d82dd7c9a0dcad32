import Mathlib.Data.List.Induction
import RemoteEval.Proofs.Client.Blind
import RemoteEval.Proofs.Client.Closure

/-!
Scratch files. A file that is made for a call belongs to its request while that waits in the queue
and in the table, and goes when the request is finished or refused. A step changes what is on the
disk just as it changes what belongs to requests, but for files that someone else deletes; that
they are gone makes no difference to what others see of requests.
-/
namespace RemoteEval

open scoped List

namespace Client

def stagedPath? (c : Client) (a : Attempt) : Option String :=
  (c.checked a).toOption.bind fun entry => entry.2.staged

def lost (c : Client) : List Step → List String
  | [] => []
  | s :: rest => s.erased?.toList.filter (fun path => path ∈ c.held) ++ (c.step s).1.lost rest

theorem stagedPath?_of_checked {c : Client} {a : Attempt} {entry : Request × Inflight}
    (h : c.checked a = .ok entry) : c.stagedPath? a = entry.2.staged := by
  rw [stagedPath?, h]
  rfl

theorem made_staged (c : Client) (calls : List Attempt) :
    (c.made calls).filterMap (fun entry => entry.2.staged) = calls.filterMap c.stagedPath? := by
  rw [made, List.filterMap_filterMap]
  rfl

theorem waiting_staged (c : Client) :
    c.waiting.filterMap (fun entry => entry.2.staged) = c.queue.filterMap Command.staged? := by
  rw [waiting, List.filterMap_filterMap]
  refine List.filterMap_congr ?_
  intro command _
  cases command <;> rfl

theorem mem_held {c : Client} {path : String} :
    path ∈ c.held ↔ (∃ entry ∈ c.table.entries, entry.2.staged = some path) ∨
      ∃ entry ∈ c.waiting, entry.2.staged = some path := by
  rw [held, ← waiting_staged, List.mem_append, List.mem_filterMap, List.mem_filterMap]

theorem lost_append (c : Client) (first second : List Step) :
    c.lost (first ++ second) = c.lost first ++ (c.run first).1.lost second := by
  induction first generalizing c with
  | nil => rfl
  | cons s rest ih =>
    rw [List.cons_append, lost, ih, lost, List.append_assoc]
    rfl

def LetGo (c : Client) (moments : List Moment) (path : String) : Prop :=
  (∃ id inflight completion, inflight.staged = some path ∧
    .finished id inflight completion ∈ moments) ∨
  ∃ entry ∈ c.waiting, entry.2.staged = some path ∧
    ∃ why, .answered entry.1.id (.error why) ∈ moments

theorem LetGo.mono {c d : Client} {moments more : List Moment} {path : String}
    (h : d.LetGo moments path) (hwaiting : d.waiting ⊆ c.waiting) (hmoments : moments ⊆ more) :
    c.LetGo more path := by
  rcases h with ⟨id, inflight, completion, hstaged, hmem⟩ | ⟨entry, hentry, hstaged, why, hmem⟩
  · exact .inl ⟨id, inflight, completion, hstaged, hmoments hmem⟩
  · exact .inr ⟨entry, hwaiting hentry, hstaged, why, hmoments hmem⟩

theorem closing_letGo {c : Client} (ending : Ending) {path : String} (h : path ∈ c.held) :
    c.LetGo (c.closing ending) path := by
  rcases mem_held.1 h with ⟨entry, hentry, hstaged⟩ | ⟨entry, hentry, hstaged⟩
  · refine .inl ⟨entry.1, entry.2, .failure .connectionClosed, hstaged, ?_⟩
    exact List.mem_append_left _ (List.mem_cons_of_mem _ (List.mem_map.2 ⟨entry, hentry, rfl⟩))
  · refine .inr ⟨entry, hentry, hstaged, .connectionClosed, ?_⟩
    refine List.mem_append_right _ ?_
    rw [refusals_eq]
    exact List.mem_map.2 ⟨entry, hentry, rfl⟩

inductive Disk (c : Client) (s : Step) (moments : List Moment) (d : Client) : Prop where
  | removed (paths : List String) (hheld : c.held.Perm (paths ++ d.held))
      (hwithout : c.scratch.Without d.scratch paths)
      (hletGo : ∀ path ∈ paths, c.LetGo moments path) (herased : s.erased? = none)
  | made (a : Attempt) (path : String) (hcall : s = .submit a)
      (hpath : c.stagedPath? a = some path) (hheld : d.held.Perm (path :: c.held))
      (hhas : ∀ other, d.scratch.has other = true ↔ c.scratch.has other = true ∨ other = path)
  | erased (path : String) (herase : s = .erase path) (hheld : d.held = c.held)
      (hscratch : d.scratch = c.scratch.remove path)

theorem Disk.same {c d : Client} {s : Step} {moments : List Moment} (hheld : c.held.Perm d.held)
    (hscratch : d.scratch = c.scratch) (herased : s.erased? = none) : c.Disk s moments d :=
  .removed [] hheld ⟨by simp [hscratch], by rw [hscratch]⟩ (by simp) herased

theorem queued_disk {c : Client} {a : Attempt} {request : Request} {inflight : Inflight}
    {scratch : Scratch} (hchecked : c.checked a = .ok (request, inflight))
    (hhas : ∀ path,
      scratch.has path = true ↔ c.scratch.has path = true ∨ inflight.staged = some path)
    (hdir : scratch.toScratchDir = c.scratch.toScratchDir) :
    c.Disk (.submit a) []
      { c with scratch, queue := c.queue ++ [.send request inflight] } := by
  have hpath := stagedPath?_of_checked hchecked
  have hheld : held { c with scratch, queue := c.queue ++ [.send request inflight] } =
      c.held ++ inflight.staged.toList := by
    rw [held, held, List.filterMap_append, ← List.append_assoc]
    cases hstaged : inflight.staged <;> simp [Command.staged?, hstaged]
  cases hstaged : inflight.staged with
  | none =>
    simp only [hstaged, Option.toList_none, List.append_nil] at hheld
    simp only [hstaged, reduceCtorEq, or_false] at hhas
    exact .removed [] (List.Perm.of_eq hheld.symm) ⟨by simp [hhas], hdir⟩ (by simp) rfl
  | some path =>
    simp only [hstaged, Option.toList_some] at hheld hpath
    refine .made a path rfl hpath ?_ ?_
    · rw [hheld]
      exact List.perm_append_comm
    · intro other
      rw [hhas, hstaged, Option.some.injEq, eq_comm (a := path)]

theorem Change.disk {c d : Client} {s : Step} {moments : List Moment} (h : c.Change s moments d) :
    c.Disk s moments d := by
  cases h with
  | aside connection hattempt herased => exact .same (List.Perm.refl _) rfl herased
  | erased path => exact .erased path rfl rfl rfl
  | rejected a why hchecked => exact .same (List.Perm.refl _) rfl rfl
  | late a request inflight hchecked hclosed => exact .same (List.Perm.refl _) rfl rfl
  | queued a request inflight scratch hchecked hopen hhas hdir =>
    exact queued_disk hchecked hhas hdir
  | asked n hopen =>
    refine .same ?_ rfl rfl
    rw [held, held, List.filterMap_append]
    exact List.Perm.of_eq (congrArg _ (List.append_nil _).symm)
  | listed n rest hqueue => exact .same (held_perm_cons hqueue) rfl rfl
  | duplicate request inflight rest scratch hqueue hmem hwithout =>
    refine .removed _ (held_perm_cons hqueue) hwithout ?_ rfl
    intro path hpath
    exact .inr ⟨(request, inflight), mem_waiting hqueue, Option.mem_toList.1 hpath, _,
      List.mem_singleton_self _⟩
  | accepted request inflight rest table connection hqueue hentries =>
    refine .same ?_ rfl rfl
    rw [held, held, hentries, hqueue, List.filterMap_append]
    cases hstaged : inflight.staged <;> simp [Command.staged?, hstaged]
  | unwritten request inflight rest written fault connection scratch hqueue hsend hwithout =>
    refine .removed c.held (List.Perm.of_eq (List.append_nil _).symm) hwithout ?_ rfl
    intro path hpath
    rcases List.mem_append.1 ((held_perm_cons hqueue).mem_iff.1 hpath) with hown | hother
    · exact .inl ⟨request.id, inflight, .failure .connectionClosed, Option.mem_toList.1 hown,
        List.mem_append_left _ (by simp)⟩
    · refine (closing_letGo (.io fault) hother).mono ?_ (List.subset_append_right _ _)
      rw [waiting_cons hqueue]
      exact List.subset_append_right _ _
  | ignored response connection => exact .same (List.Perm.refl _) rfl rfl
  | responded response id inflight completion connection scratch htracked hwithout =>
    refine .removed _ ?_ hwithout ?_ rfl
    · have hentries := (Table.entries_perm_erase htracked).filterMap fun entry => entry.2.staged
      rw [held, held, ← List.append_assoc]
      refine List.Perm.append_right _ (hentries.trans ?_)
      cases hstaged : inflight.staged <;> simp [hstaged]
    · intro path hpath
      exact .inl ⟨id, inflight, completion, Option.mem_toList.1 hpath, by simp⟩
  | ended ending connection scratch hloop hopen hwithout =>
    refine .removed c.held (List.Perm.of_eq (List.append_nil _).symm) hwithout
      (fun path hpath => closing_letGo ending hpath) ?_
    cases s <;> first | rfl | cases hloop

/-- What is on the disk are the files that belong to requests, but for lost ones, and others. -/
def Present (c : Client) (lost : List String) (other : String → Prop) : Prop :=
  ∀ path, c.scratch.has path = true ↔ (path ∈ c.held ∧ path ∉ lost) ∨ other path

section Present

variable {c d : Client} {lost paths : List String} {other : String → Prop}

theorem Present.removed (h : c.Present lost other) (hnodup : c.held.Nodup)
    (hother : ∀ path, other path → path ∉ c.held) (hheld : c.held.Perm (paths ++ d.held))
    (hwithout : c.scratch.Without d.scratch paths) : d.Present lost other := by
  intro path
  rw [hwithout.has_iff, h path]
  have hmem : path ∈ c.held ↔ path ∈ paths ∨ path ∈ d.held := by
    rw [hheld.mem_iff, List.mem_append]
  constructor
  · rintro ⟨⟨hbefore, hfound⟩ | hstart, hnot⟩
    · exact .inl ⟨(hmem.1 hbefore).resolve_left hnot, hfound⟩
    · exact .inr hstart
  · rintro (⟨hafter, hfound⟩ | hstart)
    · have hparts := List.nodup_append.1 (hheld.nodup_iff.1 hnodup)
      exact ⟨.inl ⟨hmem.2 (.inr hafter), hfound⟩,
        fun hgone => hparts.2.2 path hgone path hafter rfl⟩
    · exact ⟨.inr hstart, fun hgone => hother path hstart (hmem.2 (.inl hgone))⟩

theorem Present.made {file : String} (h : c.Present lost other) (hfile : file ∉ lost)
    (hheld : d.held.Perm (file :: c.held))
    (hhas : ∀ path, d.scratch.has path = true ↔ c.scratch.has path = true ∨ path = file) :
    d.Present lost other := by
  intro path
  rw [hhas, h path, hheld.mem_iff, List.mem_cons]
  constructor
  · rintro ((⟨hbefore, hfound⟩ | hstart) | rfl)
    · exact .inl ⟨.inr hbefore, hfound⟩
    · exact .inr hstart
    · exact .inl ⟨.inl rfl, hfile⟩
  · rintro (⟨rfl | hbefore, hfound⟩ | hstart)
    · exact .inr rfl
    · exact .inl (.inl ⟨hbefore, hfound⟩)
    · exact .inl (.inr hstart)

theorem Present.erased {file : String} (h : c.Present lost other) (hheld : d.held = c.held)
    (hscratch : d.scratch = c.scratch.remove file) :
    d.Present (lost ++ [file].filter fun path => path ∈ c.held)
      fun path => other path ∧ path ≠ file := by
  intro path
  rw [hscratch, Scratch.has_remove, h path, hheld, List.mem_append, List.mem_filter,
    List.mem_singleton, decide_eq_true_iff, not_or]
  constructor
  · rintro ⟨⟨hin, hfound⟩ | hstart, hne⟩
    · exact .inl ⟨hin, hfound, fun hfile => hne hfile.1⟩
    · exact .inr ⟨hstart, hne⟩
  · rintro (⟨hin, hfound, hnot⟩ | ⟨hstart, hne⟩)
    · exact ⟨.inl ⟨hin, hfound⟩, fun hfile => hnot ⟨hfile, hin⟩⟩
    · exact ⟨.inr hstart, hne⟩

end Present

/-- A file belongs to its request until the request is done with. -/
theorem Disk.letGo {c d : Client} {s : Step} {moments : List Moment} (h : c.Disk s moments d)
    {path : String} (hbefore : path ∈ c.held) (hafter : path ∉ d.held) :
    c.LetGo moments path := by
  cases h with
  | removed paths hheld hwithout hletGo herased =>
    rcases List.mem_append.1 (hheld.mem_iff.1 hbefore) with hpath | hleft
    · exact hletGo path hpath
    · exact absurd hleft hafter
  | made a other hcall hpath hheld hhas =>
    exact absurd (hheld.mem_iff.2 (List.mem_cons_of_mem _ hbefore)) hafter
  | erased other herase hheld hscratch => exact absurd (hheld ▸ hbefore) hafter

end Client

/-- Files of different requests are different, as those of their calls are. -/
theorem held_sublist {c d : Client} {calls : List Attempt} {history : List Moment}
    (horder : entries history ++ d.waiting <+ c.made calls)
    (htracked : d.table.entries <+ (entries history).map tracking) :
    d.held <+ calls.filterMap c.stagedPath? := by
  have htable : (d.table.entries.filterMap fun entry => entry.2.staged) <+
      (entries history).filterMap fun entry => entry.2.staged := by
    have hsub := htracked.filterMap fun entry => entry.2.staged
    rw [List.filterMap_map] at hsub
    exact hsub
  have hmade := horder.filterMap fun entry => entry.2.staged
  rw [List.filterMap_append, c.made_staged, d.waiting_staged] at hmade
  exact (htable.append_right _).trans hmade

/-- The files in a run of a client that starts with nothing to do are those of its calls. -/
theorem Client.held_run {c : Client} (hwaiting : c.waiting = []) (htable : c.table.entries = [])
    (steps : List Step) : (c.run steps).1.held <+ (attempts steps).filterMap c.stagedPath? := by
  have horder := c.waiting_run steps
  have htracked := c.tracked_run steps
  rw [hwaiting, List.nil_append] at horder
  rw [htable, List.nil_append] at htracked
  exact RemoteEval.held_sublist horder htracked

/-- The names of files are fresh: no two calls have the same, and none is there from the start. -/
structure Named (c : Client) (steps : List Step) : Prop where
  names : ((attempts steps).filterMap c.stagedPath?).Nodup
  unused : ∀ path ∈ (attempts steps).filterMap c.stagedPath?, c.scratch.has path = false

theorem attempts_append_left (first second : List Step) :
    attempts first <+ attempts (first ++ second) :=
  (List.sublist_append_left first second).filterMap _

theorem Named.of_append {c : Client} {first second : List Step} (h : Named c (first ++ second)) :
    Named c first := by
  have hsub := (attempts_append_left first second).filterMap c.stagedPath?
  exact ⟨h.names.sublist hsub, fun path hpath => h.unused path (hsub.subset hpath)⟩

/-- What no two members of a list have in common is that of one member only. -/
theorem eq_of_nodup_filterMap {α β : Type} {f : α → Option β} {l : List α}
    (h : (l.filterMap f).Nodup) {a b : α} {y : β} (ha : a ∈ l) (hfa : f a = some y) (hb : b ∈ l)
    (hfb : f b = some y) : b = a := by
  obtain ⟨before, after, rfl⟩ := List.append_of_mem ha
  rw [List.filterMap_append, List.filterMap_cons_some hfa, List.nodup_append,
    List.nodup_cons] at h
  obtain ⟨-, ⟨hlater, -⟩, hearlier⟩ := h
  rw [List.mem_append, List.mem_cons] at hb
  rcases hb with hbefore | rfl | hafter
  · have hmem := List.mem_filterMap.2 ⟨b, hbefore, hfb⟩
    exact absurd rfl (hearlier y hmem y List.mem_cons_self)
  · rfl
  · exact absurd (List.mem_filterMap.2 ⟨b, hafter, hfb⟩) hlater

theorem attempts_snoc (steps : List Step) (s : Step) :
    attempts (steps ++ [s]) = attempts steps ++ s.attempt?.toList := by
  rw [attempts, List.filterMap_append, ← attempts, ← attempts, attempts_cons]
  exact congrArg _ (List.append_nil _)

theorem Client.run_snoc (c : Client) (steps : List Step) (s : Step) :
    (c.run (steps ++ [s])).1 = ((c.run steps).1.step s).1 := by
  rw [run_append, andThen_fst, run, andThen_fst, run]

theorem Client.lost_snoc (c : Client) (steps : List Step) (s : Step) : c.lost (steps ++ [s]) =
    c.lost steps ++ s.erased?.toList.filter fun path => path ∈ (c.run steps).1.held := by
  rw [c.lost_append, lost, lost, List.append_nil]

/-- The files on the disk after some steps: those of requests that nobody has deleted, and what
was there from the start and nobody has deleted. -/
structure Kept (c : Client) (steps : List Step) : Prop where
  lost_known : ∀ path ∈ c.lost steps, path ∈ (attempts steps).filterMap c.stagedPath?
  present : (c.run steps).1.Present (c.lost steps)
    fun path => c.scratch.has path = true ∧ .erase path ∉ steps

namespace Kept

variable {c : Client} {steps : List Step} {s : Step}

theorem nil (c : Client) (hheld : c.held = []) : Kept c [] where
  lost_known := by
    intro path hpath
    cases hpath
  present := by
    intro path
    simp [Client.run, hheld]

theorem snoc (h : Kept c steps) (hnamed : Named c (steps ++ [s]))
    (hsub : (c.run steps).1.held <+ (attempts steps).filterMap c.stagedPath?) :
    Kept c (steps ++ [s]) where
  lost_known := by
    intro path hpath
    rw [attempts_snoc, List.filterMap_append]
    rw [c.lost_snoc] at hpath
    rcases List.mem_append.1 hpath with hbefore | hnow
    · exact List.mem_append_left _ (h.lost_known path hbefore)
    · have hheld : path ∈ (c.run steps).1.held := by simpa using (List.mem_filter.1 hnow).2
      exact List.mem_append_left _ (hsub.subset hheld)
  present := by
    have hnodup := hnamed.of_append.names.sublist hsub
    rw [c.run_snoc, c.lost_snoc]
    cases ((c.run steps).1.step_change s).disk with
    | removed paths hheld hwithout hletGo herased =>
      have hsame : ∀ path, Step.erase path ∈ steps ++ [s] ↔ Step.erase path ∈ steps := by
        intro path
        have hother : Step.erase path ≠ s := by
          rintro rfl
          cases herased
        simp [hother]
      simp only [herased, Option.toList_none, List.filter_nil, List.append_nil, hsame]
      -- What was there from the start is no file of a call, so it is not among those that go.
      refine h.present.removed hnodup ?_ hheld hwithout
      rintro path ⟨hstart, -⟩ hmem
      rw [hnamed.of_append.unused path (hsub.subset hmem)] at hstart
      cases hstart
    | made a file hcall hpath hheld hhas =>
      subst hcall
      -- A file that has been deleted was made for an earlier call, and this call has a fresh one.
      have hfile : file ∉ c.lost steps := by
        intro hlost
        have hnames := hnamed.names
        have hnow : c.stagedPath? a = some file := by
          rw [Client.stagedPath?, ← c.run_checked steps]
          exact hpath
        rw [attempts_snoc, List.filterMap_append, List.nodup_append] at hnames
        exact hnames.2.2 file (h.lost_known file hlost) file
          (List.mem_filterMap.2 ⟨a, List.mem_singleton_self a, hnow⟩) rfl
      have hmade := h.present.made hfile hheld hhas
      simpa [Step.erased?] using hmade
    | erased file herase hheld hscratch =>
      subst herase
      have herased := h.present.erased hheld hscratch
      intro path
      rw [herased path]
      simp only [List.mem_append, List.mem_singleton, Step.erase.injEq, not_or, and_assoc]
      rfl

/-- In a run of a client that starts with nothing to do the files are kept. -/
theorem of_named (hwaiting : c.waiting = []) (htable : c.table.entries = [])
    (hnamed : Named c steps) : Kept c steps := by
  induction steps using List.reverseRecOn with
  | nil => exact nil c (List.sublist_nil.1 (Client.held_run hwaiting htable []))
  | append_singleton steps s ih =>
    exact (ih hnamed.of_append).snoc hnamed (Client.held_run hwaiting htable steps)

end Kept

/-- The file of a call that has returned an error belongs to no request. -/
theorem Docket.not_held {c : Client} {steps : List Step} {settled : List (Attempt × Fate)}
    {waiting : List Attempt} (h : Docket c steps settled waiting)
    (hrest : c.closed = true → c.AtRest) (htable : c.table.entries = [])
    (hnamed : Named c steps) {e : Attempt × Fate} (he : e ∈ settled) {why : Error}
    (herror : e.2.result e.1 = .error why) {path : String}
    (hpath : c.stagedPath? e.1 = some path) : path ∉ (c.run steps).1.held := by
  have hnames := (h.calls_perm.filterMap c.stagedPath?).nodup_iff.1 hnamed.names
  rw [List.filterMap_append, List.filterMap_map, List.nodup_append] at hnames
  obtain ⟨hsettled, -, hwaiting⟩ := hnames
  have hown : path ∈ settled.filterMap (c.stagedPath? ∘ Prod.fst) :=
    List.mem_filterMap.2 ⟨e, he, hpath⟩
  intro hheld
  rcases Client.mem_held.1 hheld with ⟨tracked, htracked, hstaged⟩ | ⟨entry, hentry, hstaged⟩
  · -- The file is that of a request in the table, which is that of this call, as names are fresh;
    -- so the call has its request cut off, and then nothing is left in the table.
    have hregistered := (c.tracked_run steps).subset htracked
    rw [htable, List.nil_append] at hregistered
    obtain ⟨entry, hentry, rfl⟩ := List.mem_map.1 hregistered
    obtain ⟨other, hin, hregistered, hchecked⟩ := h.exists_registered hentry
    obtain rfl := eq_of_nodup_filterMap hsettled he hpath hin
      ((Client.stagedPath?_of_checked hchecked).trans hstaged)
    have hshut : other.2.shut = true := by
      cases hfate : other.2 <;> simp [hfate, Fate.registered, Fate.result, Fate.shut] at *
    rw [(Client.run_atRest hrest steps (h.shut other he hshut)).table_eq] at htracked
    cases htracked
  · obtain ⟨b, hb, hchecked⟩ := h.exists_waiting hentry
    have hfile := (Client.stagedPath?_of_checked hchecked).trans hstaged
    exact hwaiting path hown path (List.mem_filterMap.2 ⟨b, hb, hfile⟩) rfl

namespace Client

/-- A call that is seen to be answered has been. -/
theorem mem_history_of_answered {c : Client} {steps : List Step} {id : RequestId}
    {result : Except Error Unit} (h : .answered id result ∈ (c.run steps).2) :
    .answered id result ∈ c.history steps := by
  have hanswers : .answered id result ∈ (c.run steps).2.filter (Effect.answers id) :=
    List.mem_filter.2 ⟨h, beq_self_eq_true id⟩
  rw [c.answers_run] at hanswers
  obtain ⟨moment, hmoment, hreply⟩ := List.mem_filterMap.1 hanswers
  cases moment with
  | answered other told =>
    cases hreply
    exact (List.mem_filter.1 hmoment).1
  | _ => cases hreply

structure Finishes (c : Client) (id : RequestId) (inflight : Inflight) (completion : Completion) :
    Prop where
  parts : c.finish id inflight completion =
    andThen (andThen (c, if inflight.callbacks.wants completion then [.callback id completion]
        else []) fun c => c.releaseFile id inflight.staged)
      fun c => (c, [.editor (.progress inflight.origin .stopped), .resolved id completion])
  gone : ∀ path, inflight.staged = some path →
    (c.releaseFile id inflight.staged).1.scratch.has path = false
  others : ∀ path, inflight.staged ≠ some path →
    (c.finish id inflight completion).1.scratch.has path = c.scratch.has path
  missing : ∀ path, inflight.staged = some path →
    (c.releaseFile id inflight.staged).2 = .release id path ::
      if c.scratch.has path then [] else [.log .warn (releaseWarning path (.atPath .missing path))]

theorem finishes (c : Client) (id : RequestId) (inflight : Inflight) (completion : Completion) :
    c.Finishes id inflight completion where
  parts := by
    unfold finish andThen
    rfl
  gone := by
    intro path hpath
    rw [releaseFile_fst, hpath, ← Bool.not_eq_true]
    intro hhas
    exact ((Scratch.has_remove _ _ _).1 hhas).2 rfl
  others := by
    intro path hpath
    rw [finish_fst]
    cases hstaged : inflight.staged with
    | none => rfl
    | some file =>
      have hne : path ≠ file := by
        rintro rfl
        exact hpath hstaged
      rw [Bool.eq_iff_iff]
      exact (Scratch.has_remove c.scratch file path).trans (and_iff_left hne)
  missing := by
    intro path hpath
    rw [hpath]
    unfold releaseFile Scratch.release
    by_cases hhas : c.scratch.has path = true
    · simp only [hhas, if_true]
    · simp only [hhas, if_false, Bool.false_eq_true]

/-- The files of the requests that a loop ends with: of those that were in the table, of those that
are queued, and of those that others call for while it ends. -/
def endingFiles (c : Client) (left : List (RequestId × Inflight)) (others : List Step) :
    List String :=
  (left.filterMap fun entry => entry.2.staged) ++
    (c.waiting ++ c.made (attempts others)).filterMap fun entry => entry.2.staged

/-- The request that is finished first gives its file away, and the rest is for later. -/
theorem endingFiles_finish (c : Client) (id : RequestId) (inflight : Inflight)
    (left : List (RequestId × Inflight)) (others : List Step) :
    c.endingFiles ((id, inflight) :: left) others = inflight.staged.toList ++
      (c.finish id inflight (.failure .connectionClosed)).1.endingFiles left others := by
  have hwaiting : (c.finish id inflight (.failure .connectionClosed)).1.waiting = c.waiting := by
    rw [finish_fst]
    rfl
  rw [endingFiles, endingFiles, made_congr (c.finish_checked _ _ _), hwaiting, List.filterMap_cons]
  cases inflight.staged <;> rfl

/-- The file of a call that comes first is among those of the requests that wait after it. -/
theorem Amid.endingFiles_eq {c : Client} {s : Step} {moments : List Moment}
    (h : c.Amid s moments (c.step s).1) (left : List (RequestId × Inflight))
    (others : List Step) :
    (c.step s).1.endingFiles left others = c.endingFiles left (s :: others) := by
  rw [endingFiles, endingFiles, h.waiting_eq, made_congr (c.step_checked s), attempts_cons,
    made_append, List.append_assoc]

theorem made_staged_subset (c : Client) (left : List (RequestId × Inflight)) (s : Step)
    (others : List Step) :
    (c.made s.attempt?.toList).filterMap (fun entry => entry.2.staged) ⊆
      c.endingFiles left (s :: others) := by
  intro path hpath
  rw [endingFiles, attempts_cons, made_append]
  simp only [List.filterMap_append, List.mem_append]
  exact .inr (.inr (.inl hpath))

/-- However others race with the end of the loop, these files go, and no others. -/
theorem Winds.has_iff {c : Client} {left : List (RequestId × Inflight)} {others : List Step}
    {out : Client × List Effect} (h : c.Winds left others out) (hopen : c.closed = false)
    (path : String) : out.1.scratch.has path = true ↔
      c.scratch.has path = true ∧ path ∉ c.endingFiles left others ∧ .erase path ∉ others := by
  induction h with
  | done c =>
    have hfiles : c.endingFiles [] [] = c.queue.filterMap Command.staged? := by
      rw [← c.waiting_staged]
      simp [endingFiles, attempts, made]
    rw [refuseAll_state, Scratch.has_removeAll, hfiles]
    simp
  | finish c id inflight hrest ih =>
    rw [andThen_fst, ih (by rw [finish_fst]; exact hopen), endingFiles_finish, finish_fst,
      ← Scratch.removeAll_toList, Scratch.has_removeAll, List.mem_append, not_or, and_assoc,
      and_assoc]
  | @amid c s hother left others out hrest ih =>
    have hamid := (c.step_change s).amid hopen hother
    rw [andThen_fst, ih hamid.opened, hamid.endingFiles_eq, List.mem_cons, not_or]
    constructor
    · rintro ⟨hafter, hnot, hkept⟩
      obtain ⟨hbefore, hother⟩ :=
        (hamid.has_iff path fun hmade => hnot (c.made_staged_subset left s others hmade)).1 hafter
      exact ⟨hbefore, hnot, hother.symm, hkept⟩
    · rintro ⟨hbefore, hnot, hother, hkept⟩
      have hafter :=
        (hamid.has_iff path fun hmade => hnot (c.made_staged_subset left s others hmade)).2
          ⟨hbefore, Ne.symm hother⟩
      exact ⟨hafter, hnot, hkept⟩

structure FileLife (c : Client) (steps : List Step) : Prop where
  /-- Between two steps there are the files of the requests in the table and in the queue that
  nobody has deleted, and what was there from the start. -/
  present : ∀ before, before <+: steps → ∀ path, (c.run before).1.scratch.has path = true ↔
    (path ∈ (c.run before).1.held ∧ path ∉ c.lost before) ∨
      (c.scratch.has path = true ∧ .erase path ∉ before)
  distinct : ∀ before, before <+: steps → (c.run before).1.held.Nodup
  letGo : ∀ before s, before ++ [s] <+: steps → ∀ path ∈ (c.run before).1.held,
    path ∉ (c.run (before ++ [s])).1.held →
    (c.run before).1.LetGo ((c.run before).1.happens s) path
  finishing : ∀ d id inflight completion, Finishes d id inflight completion
  dropping : ∀ (d : Client) (commands : List Command) (path : String),
    (d.refuseAll commands).1.scratch.has path = true ↔
      d.scratch.has path = true ∧ path ∉ commands.filterMap Command.staged?
  released : ∀ id inflight completion path, .finished id inflight completion ∈ c.history steps →
    inflight.staged = some path →
    [.release id path, .editor (.progress inflight.origin .stopped), .resolved id completion] <:+:
      aboutRequests (c.run steps).2
  /-- A call that returns an error leaves no file behind, whichever way it is refused. -/
  refused : ∀ before, before <+: steps → ∃ settled waiting, Docket c before settled waiting ∧
    ∀ e ∈ settled, ∀ why, e.2.result e.1 = .error why → ∀ path, c.stagedPath? e.1 = some path →
    (c.run before).1.scratch.has path = false
  ended : ∀ before, before <+: steps → (c.run before).1.closed = true → ∀ path,
    (c.run before).1.scratch.has path = true ↔ c.scratch.has path = true ∧ .erase path ∉ before
  racing : ∀ (d : Client) (left : List (RequestId × Inflight)) (others : List Step)
    (out : Client × List Effect), d.closed = false → d.Winds left others out →
    ∀ path, out.1.scratch.has path = true ↔ d.scratch.has path = true ∧
      path ∉ d.endingFiles left others ∧ .erase path ∉ others
  undisturbed : aboutRequests (c.run steps).2 =
    aboutRequests (c.run (steps.filter fun s => s.erased?.isNone)).2

theorem isInfix_released {c : Client} {steps : List Step} {id : RequestId} {inflight : Inflight}
    {completion : Completion} (hmem : .finished id inflight completion ∈ c.history steps)
    {path : String} (hstaged : inflight.staged = some path) :
    [.release id path, .editor (.progress inflight.origin .stopped), .resolved id completion] <:+:
      aboutRequests (c.run steps).2 := by
  have hending : [.release id path, .editor (.progress inflight.origin .stopped),
      .resolved id completion] <:+ c.ending id inflight completion := by
    rw [ending, hstaged, List.append_assoc]
    exact List.suffix_append _ _
  exact hending.isInfix.trans (isInfix_shows hmem)

/-- A call that has returned an error has no file on the disk. -/
theorem has_of_refused {c : Client} {steps : List Step} (hkept : Kept c steps)
    (hnamed : Named c steps) (hrest : c.closed = true → c.AtRest) (htable : c.table.entries = [])
    {settled : List (Attempt × Fate)} {waiting : List Attempt}
    (h : Docket c steps settled waiting) {e : Attempt × Fate} (he : e ∈ settled) {why : Error}
    (herror : e.2.result e.1 = .error why) {path : String}
    (hpath : c.stagedPath? e.1 = some path) : (c.run steps).1.scratch.has path = false := by
  have hcalled : e.1 ∈ attempts steps :=
    h.calls_perm.mem_iff.2 (List.mem_append_left _ (List.mem_map_of_mem he))
  rw [← Bool.not_eq_true, hkept.present path]
  rintro (⟨hheld, -⟩ | ⟨hthere, -⟩)
  · exact h.not_held hrest htable hnamed he herror hpath hheld
  · rw [hnamed.unused path (List.mem_filterMap.2 ⟨e.1, hcalled, hpath⟩)] at hthere
    cases hthere

/-- Once the loop has ended no request has a file. -/
theorem held_of_closed {c : Client} {steps : List Step} (hrest : c.closed = true → c.AtRest)
    (hclosed : (c.run steps).1.closed = true) : (c.run steps).1.held = [] := by
  obtain ⟨hended, htable⟩ := run_atRest hrest steps hclosed
  rw [held, htable, hended.queue_nil]
  rfl

theorem fileLife {c : Client} {steps : List Step} (hwaiting : c.waiting = [])
    (htable : c.table.entries = []) (hrest : c.closed = true → c.AtRest)
    (hnamed : Named c steps) : c.FileLife steps where
  present := by
    rintro before ⟨after, rfl⟩
    exact (Kept.of_named hwaiting htable hnamed.of_append).present
  distinct := by
    rintro before ⟨after, rfl⟩
    exact hnamed.of_append.names.sublist (held_run hwaiting htable before)
  letGo := by
    intro before s _ path hbefore hafter
    rw [run_snoc] at hafter
    exact ((run _ before).1.step_change s).disk.letGo hbefore hafter
  finishing := finishes
  dropping := by
    intro d commands path
    rw [refuseAll_state]
    exact d.scratch.has_removeAll _ path
  released := by
    intro id inflight completion path hmem hstaged
    exact isInfix_released hmem hstaged
  refused := by
    rintro before ⟨after, rfl⟩
    have hfirst := hnamed.of_append
    obtain ⟨settled, waiting, hdocket⟩ := exists_docket hrest hwaiting before
    refine ⟨settled, waiting, hdocket, fun e he why herror path hpath => ?_⟩
    exact has_of_refused (.of_named hwaiting htable hfirst) hfirst hrest htable hdocket he herror
      hpath
  ended := by
    rintro before ⟨after, rfl⟩ hclosed path
    rw [(Kept.of_named hwaiting htable hnamed.of_append).present path,
      held_of_closed hrest hclosed]
    simp
  racing := by
    intro d left others out hopen hwinds
    exact hwinds.has_iff hopen
  undisturbed := (aboutRequests_unerased c steps).symm

/-- In every run of a client whose files have fresh names, a scratch file lives exactly as long as
its request, whatever ids the calls have. -/
theorem files_live_as_long_as_requests (connection : Connection) (config : Config)
    (stager : Stager) (scratch : Scratch) (steps : List Step)
    (hnamed : Named (Client.new connection config stager scratch) steps) :
    (Client.new connection config stager scratch).FileLife steps :=
  fileLife rfl rfl (new_atRest connection config stager scratch) hnamed

/-- Of three files one is deleted by someone else while its request waits for its response, and one
goes because its call is refused for its id; then the client is stopped. -/
theorem files_live_as_long_as_requests_when_deleted :
    let steps : List Step := [.submit ⟨"a", "s", "buffer", .default, .staged "1", {}⟩,
      .submit ⟨"a", "t", "buffer", .default, .staged "2", {}⟩,
      .submit ⟨"b", "u", "buffer", .default, .staged "3", {}⟩, .take, .take,
      .erase "/tmp/replwire-s.jl", .stop]
    Named (Client.new { peer := "repl" } {} {}) steps ∧
      (Client.new { peer := "repl" } {} {}).FileLife steps := by
  intro steps
  have hnamed : Named (Client.new { peer := "repl" } {} {}) steps :=
    ⟨by decide +kernel, fun _ _ => rfl⟩
  exact ⟨hnamed, files_live_as_long_as_requests { peer := "repl" } {} {} {} _ hnamed⟩

end Client

end RemoteEval
