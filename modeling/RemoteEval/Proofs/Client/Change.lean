import RemoteEval.Proofs.Client.Course
import RemoteEval.Proofs.Client.Standing
import RemoteEval.Proofs.Scratch

/-!
What one step does to a client as a whole: to its queue, its table, its scratch directory and its
connection, together with the moments that happen in it. There is one case for each way a step can
go, so what every step preserves is proved case by case.
-/
namespace RemoteEval

def Step.erased? : Step → Option String
  | .erase path => some path
  | _ => none

def Step.ofLoop : Step → Bool
  | .take => true
  | .receive => true
  | .stop => true
  | _ => false

def Command.entry? : Command → Option (Request × Inflight)
  | .send request inflight => some (request, inflight)
  | .outstanding _ => none

def Command.staged? : Command → Option String
  | .send _ inflight => inflight.staged
  | .outstanding _ => none

structure Scratch.Without (s t : Scratch) (paths : List String) : Prop where
  has_iff : ∀ path, t.has path = true ↔ s.has path = true ∧ path ∉ paths
  dir_eq : t.toScratchDir = s.toScratchDir

theorem Scratch.removeAll_without (s : Scratch) (paths : List String) :
    s.Without (s.removeAll paths) paths :=
  ⟨s.has_removeAll paths, s.dir_removeAll paths⟩

theorem Scratch.Without.trans {s t u : Scratch} {first second : List String}
    (hfirst : s.Without t first) (hsecond : t.Without u second) :
    s.Without u (first ++ second) where
  has_iff := by
    intro path
    rw [hsecond.has_iff, hfirst.has_iff, List.mem_append, not_or, and_assoc]
  dir_eq := hsecond.dir_eq.trans hfirst.dir_eq

theorem Scratch.Without.congr {s t : Scratch} {first second : List String}
    (h : s.Without t first) (hsame : ∀ path, path ∈ second ↔ path ∈ first) :
    s.Without t second where
  has_iff := by
    intro path
    rw [h.has_iff, hsame]
  dir_eq := h.dir_eq

/-- What is written without a fault is written whole. -/
theorem Connection.write_none {c d : Connection} {bytes written : List UInt8}
    (h : c.write bytes = (written, none, d)) : written = bytes := by
  unfold write at h
  split at h
  · exact (congrArg Prod.fst h).symm
  · split at h
    · exact (congrArg Prod.fst h).symm
    · cases h

/-- What is written is a front of it, or all of it if only the flush fails. -/
theorem Connection.written_prefix {c d : Connection} {bytes written : List UInt8}
    {fault : Option Fault} (h : c.write bytes = (written, fault, d)) : written <+: bytes := by
  have hwritten : (c.write bytes).1 = written := congrArg Prod.fst h
  rw [← hwritten]
  unfold write
  split
  · exact List.prefix_refl bytes
  · split
    · exact List.prefix_refl bytes
    · exact List.take_prefix _ bytes

namespace Client

/-- What the checks before a call to send come to: its request, and what will be kept of it. -/
def checked (c : Client) (a : Attempt) : Except Error (Request × Inflight) :=
  (c.prepare a).map fun prepared => (prepared.1, ⟨a.origin, a.callbacks, prepared.2.1⟩)

def held (c : Client) : List String :=
  (c.table.entries.filterMap fun entry => entry.2.staged) ++ c.queue.filterMap Command.staged?

def taken? (c : Client) : Step → Option (Request × Inflight)
  | .take => c.queue.head?.bind Command.entry?
  | _ => none

/-- The first command in the queue holds its file beside those that the others hold. -/
theorem held_perm_cons {c : Client} {command : Command} {rest : List Command}
    (hqueue : c.queue = command :: rest) :
    c.held.Perm (command.staged?.toList ++ { c with queue := rest }.held) := by
  have hsplit : c.queue.filterMap Command.staged? =
      command.staged?.toList ++ rest.filterMap Command.staged? := by
    rw [hqueue, List.filterMap_cons]
    cases command.staged? <;> rfl
  rw [held, held, hsplit]
  exact List.perm_append_comm_assoc _ _ _

theorem prepare_error {c : Client} {a : Attempt} {why : Error} (h : c.prepare a = .error why) :
    c.checked a = .error why := by
  rw [checked, h]
  rfl

theorem prepare_ok {c : Client} {a : Attempt} {request : Request} {staged : Option String}
    {scratch : Scratch} (h : c.prepare a = .ok (request, staged, scratch)) :
    c.checked a = .ok (request, ⟨a.origin, a.callbacks, staged⟩) := by
  rw [checked, h]
  rfl

theorem checked_id {c : Client} {a : Attempt} {request : Request} {inflight : Inflight}
    (h : c.checked a = .ok (request, inflight)) : request.id = a.id := by
  unfold checked at h
  cases hprepare : c.prepare a with
  | error why =>
    rw [hprepare] at h
    cases h
  | ok prepared =>
    obtain ⟨made, staged, scratch⟩ := prepared
    rw [hprepare] at h
    cases h
    exact prepare_id hprepare

theorem checked_of {c : Client} {a : Attempt} {request : Request} {inflight : Inflight}
    (h : c.checked a = .ok (request, inflight)) : inflight.Of a := by
  unfold checked at h
  cases hprepare : c.prepare a with
  | error why =>
    rw [hprepare] at h
    cases h
  | ok prepared =>
    rw [hprepare] at h
    cases h
    exact ⟨rfl, rfl⟩

/-- The directory with the file of a call that has been checked. -/
theorem prepare_scratch {c : Client} {a : Attempt} {request : Request} {staged : Option String}
    {scratch : Scratch} (h : c.prepare a = .ok (request, staged, scratch)) :
    (∀ path, scratch.has path = true ↔ c.scratch.has path = true ∨ staged = some path) ∧
      scratch.toScratchDir = c.scratch.toScratchDir := by
  unfold prepare at h
  split at h
  · cases h
  · split at h
    · cases h
      exact ⟨fun path => by simp, rfl⟩
    · next text _ =>
      unfold Scratch.stage at h
      split at h
      · cases h
      · next file made hstage =>
        split at hstage
        · cases hstage
        · cases hstage
          cases h
          refine ⟨fun path => ?_, rfl⟩
          rw [Scratch.has_append, List.map_singleton, List.mem_singleton, Option.some.injEq,
            eq_comm (a := path)]

/-- Checks look at the settings of a client and not at what it is doing. -/
theorem checked_congr {c d : Client} (hsetup : d.SameSetup c)
    (hdir : d.scratch.toScratchDir = c.scratch.toScratchDir) : d.checked = c.checked := by
  funext a
  have hstage : ∀ text, (d.scratch.stage d.stager a.stem text).map Prod.fst =
      (c.scratch.stage c.stager a.stem text).map Prod.fst := by
    intro text
    simp only [Scratch.stage, Scratch.stageFault?, Scratch.refusal?, hsetup.stager, hdir]
    split <;> rfl
  have hcode : d.codeOrText a.body = c.codeOrText a.body := by
    unfold codeOrText prefersFile
    rw [hsetup.inlineLimit]
  unfold checked prepare
  rw [hcode]
  cases (spec a).resolve with
  | error why => rfl
  | ok path =>
    cases c.codeOrText a.body with
    | inl code => rfl
    | inr text =>
      have htext := hstage text
      cases hd : d.scratch.stage d.stager a.stem text with
      | error why =>
        cases hc : c.scratch.stage c.stager a.stem text with
        | error other =>
          rw [hd, hc] at htext
          cases htext
          simp only [hd, hc]
        | ok staged =>
          rw [hd, hc] at htext
          cases htext
      | ok staged =>
        cases hc : c.scratch.stage c.stager a.stem text with
        | error other =>
          rw [hd, hc] at htext
          cases htext
        | ok other =>
          obtain ⟨file, scratch⟩ := staged
          obtain ⟨_, left⟩ := other
          rw [hd, hc] at htext
          cases htext
          simp only [hd, hc]
          rfl

/-- Finishing requests takes away their files. -/
theorem finishAll_state (c : Client) (entries : List (RequestId × Inflight)) :
    (c.finishAll entries).1 = { c with
      scratch := c.scratch.removeAll (entries.filterMap fun entry => entry.2.staged) } := by
  induction entries generalizing c with
  | nil => rfl
  | cons entry rest ih =>
    obtain ⟨id, inflight⟩ := entry
    rw [finishAll, andThen_fst, finish_fst, ih, Scratch.removeAll_filterMap_cons]

/-- Refusing commands takes away their files. -/
theorem refuseAll_state (c : Client) (commands : List Command) :
    (c.refuseAll commands).1 =
      { c with scratch := c.scratch.removeAll (commands.filterMap Command.staged?) } := by
  induction commands generalizing c with
  | nil => rfl
  | cons command rest ih =>
    cases command with
    | outstanding n =>
      rw [refuseAll, andThen_fst, ih]
      rfl
    | send request inflight =>
      rw [refuseAll, andThen_fst, ih, Scratch.removeAll_filterMap_cons]
      rfl

/-- When the loop ends nothing is left of the requests in the table and in the queue. -/
theorem close_state (c : Client) (ending : Ending) :
    (c.close ending).1 = { c with
      table := .empty, queue := [], closed := true, scratch := c.scratch.removeAll c.held } := by
  unfold close
  simp only [Table.drain, andThen_fst, finishAll_state, refuseAll_state, held,
    Scratch.removeAll_append]

/-- What one step does: the step, the moments in it, and the client after it. -/
inductive Change (c : Client) : Step → List Moment → Client → Prop where
  | aside {s : Step} (connection : Connection) (hattempt : s.attempt? = none)
      (herased : s.erased? = none) (htaken : c.taken? s = none) : Change c s [] { c with connection }
  | erased (path : String) :
      Change c (.erase path) [] { c with scratch := c.scratch.remove path }
  | rejected (a : Attempt) (why : Error) (hchecked : c.checked a = .error why) :
      Change c (.submit a) [.answered a.id (.error why)] c
  | late (a : Attempt) (request : Request) (inflight : Inflight)
      (hchecked : c.checked a = .ok (request, inflight)) (hclosed : c.closed = true) :
      Change c (.submit a) [.answered a.id (.error .connectionClosed)] c
  | queued (a : Attempt) (request : Request) (inflight : Inflight) (scratch : Scratch)
      (hchecked : c.checked a = .ok (request, inflight)) (hopen : c.closed = false)
      (hhas : ∀ path,
        scratch.has path = true ↔ c.scratch.has path = true ∨ inflight.staged = some path)
      (hdir : scratch.toScratchDir = c.scratch.toScratchDir) :
      Change c (.submit a) [] { c with scratch, queue := c.queue ++ [.send request inflight] }
  | asked (n : Nat) (hopen : c.closed = false) :
      Change c (.query n) [] { c with queue := c.queue ++ [.outstanding n] }
  | listed (n : Nat) (rest : List Command) (hqueue : c.queue = .outstanding n :: rest) :
      Change c .take [] { c with queue := rest }
  | duplicate (request : Request) (inflight : Inflight) (rest : List Command) (scratch : Scratch)
      (hqueue : c.queue = .send request inflight :: rest) (hmem : request.id ∈ c.table.ids)
      (hwithout : c.scratch.Without scratch inflight.staged.toList) :
      Change c .take [.answered request.id (.error (.duplicateId request.id))]
        { c with scratch, queue := rest }
  | accepted (request : Request) (inflight : Inflight) (rest : List Command)
      (table : Table Inflight) (connection : Connection)
      (hqueue : c.queue = .send request inflight :: rest)
      (hentries : table.entries = c.table.entries ++ [(request.id, inflight)]) :
      Change c .take [.registered request inflight request.wire, .answered request.id (.ok ())]
        { c with table, connection, queue := rest }
  | unwritten (request : Request) (inflight : Inflight) (rest : List Command)
      (written : List UInt8) (fault : Fault) (connection : Connection) (scratch : Scratch)
      (hqueue : c.queue = .send request inflight :: rest)
      (hsend : c.connection.send request = (written, some fault, connection))
      (hwithout : c.scratch.Without scratch c.held) :
      Change c .take
        ([.registered request inflight written,
          .finished request.id inflight (.failure .connectionClosed),
          .answered request.id (.error .connectionClosed)] ++
          { c with queue := rest }.closing (.io fault))
        { c with connection, scratch, table := .empty, queue := [], closed := true }
  | ignored (response : Response) (connection : Connection) :
      Change c .receive [.dispatched response] { c with connection }
  | responded (response : Response) (id : RequestId) (inflight : Inflight)
      (completion : Completion) (connection : Connection) (scratch : Scratch)
      (htracked : c.table.get? id = some inflight)
      (hwithout : c.scratch.Without scratch inflight.staged.toList) :
      Change c .receive [.dispatched response, .finished id inflight completion]
        { c with connection, scratch, table := c.table.erase id }
  | ended {s : Step} (ending : Ending) (connection : Connection) (scratch : Scratch)
      (hloop : s.ofLoop = true) (hopen : c.closed = false)
      (hwithout : c.scratch.Without scratch c.held) (htaken : c.taken? s = none) :
      Change c s (c.closing ending)
        { c with connection, scratch, table := .empty, queue := [], closed := true }

theorem close_change {c : Client} {s : Step} (hloop : s.ofLoop = true) (htaken : c.taken? s = none)
    (hopen : c.closed = false) (ending : Ending) (connection : Connection) :
    c.Change s (c.closing ending) ({ c with connection }.close ending).1 := by
  rw [close_state]
  exact .ended ending connection _ hloop hopen (c.scratch.removeAll_without c.held) htaken

theorem submit_change (c : Client) (a : Attempt) :
    c.Change (.submit a) (c.submitting a) (c.submit a).1 := by
  unfold submitting submit
  cases hprepare : c.prepare a with
  | error why => exact .rejected a why (prepare_error hprepare)
  | ok prepared =>
    obtain ⟨request, staged, scratch⟩ := prepared
    have hchecked := prepare_ok hprepare
    by_cases hclosed : c.closed = true
    · simp only [if_pos hclosed]
      exact .late a request _ hchecked hclosed
    · obtain ⟨hhas, hdir⟩ := prepare_scratch hprepare
      simp only [if_neg hclosed]
      exact .queued a request _ scratch hchecked (Bool.eq_false_iff.2 hclosed) hhas hdir

theorem register_change {c : Client} {request : Request} {inflight : Inflight}
    {rest : List Command} (hqueue : c.queue = .send request inflight :: rest) :
    c.Change .take ({ c with queue := rest }.registering request inflight)
      ({ c with queue := rest }.register request inflight).1 := by
  have hstaged : c.scratch.Without (inflight.staged.elim c.scratch c.scratch.remove)
      inflight.staged.toList := by
    rw [← Scratch.removeAll_toList]
    exact c.scratch.removeAll_without _
  cases registration { c with queue := rest } request inflight with
  | duplicate text hmem hregister hmoments =>
    rw [hregister, hmoments]
    exact .duplicate request inflight rest _ hqueue hmem hstaged
  | accepted table written connection hfree hentries hsend hregister hmoments =>
    rw [hregister, hmoments, Connection.write_none hsend]
    exact .accepted request inflight rest table connection hqueue hentries
  | unwritten written fault connection hfree hsend hregister hmoments =>
    rw [hregister, hmoments]
    simp only [andThen_fst, finish_fst, close_state]
    have hwithout := hstaged.trans
      (Scratch.removeAll_without _ { c with queue := rest, connection }.held)
    exact .unwritten request inflight rest written fault connection _ hqueue hsend
      (hwithout.congr fun _ => (held_perm_cons hqueue).mem_iff)

theorem take_change (c : Client) : c.Change .take c.taking c.take.1 := by
  unfold taking take
  cases hqueue : c.queue with
  | nil => exact .aside c.connection rfl rfl (by rw [taken?, hqueue]; rfl)
  | cons command rest =>
    cases command with
    | send request inflight => exact register_change hqueue
    | outstanding n => exact .listed n rest hqueue

theorem dispatch_change (c : Client) (response : Response) (connection : Connection) :
    c.Change .receive (c.dispatching response) ({ c with connection }.dispatch response).1 := by
  unfold dispatching
  cases hended : c.endedBy response with
  | none =>
    obtain ⟨level, text, hdispatch⟩ := dispatch_of_none (c := { c with connection }) hended
    rw [hdispatch]
    exact .ignored response connection
  | some ended =>
    obtain ⟨id, inflight, completion⟩ := ended
    obtain ⟨-, htracked⟩ := endedBy_some hended
    rw [dispatch_of_some (c := { c with connection }) hended, andThen_fst, finish_fst,
      ← Scratch.removeAll_toList]
    exact .responded response id inflight completion connection _ htracked
      (c.scratch.removeAll_without _)

theorem receive_change (c : Client) : c.Change .receive c.receiving c.receive.1 := by
  unfold receiving receive
  by_cases hclosed : c.closed = true
  · rw [if_pos hclosed, if_pos hclosed]
    exact .aside c.connection rfl rfl rfl
  · have hopen := Bool.eq_false_iff.2 hclosed
    rw [if_neg hclosed, if_neg hclosed]
    obtain ⟨receipt, connection⟩ := c.connection.receive
    cases receipt with
    | response response => exact c.dispatch_change response connection
    | ended => exact close_change rfl rfl hopen .remoteClosed connection
    | failed fault => exact close_change rfl rfl hopen (.io fault) connection
    | waiting => exact .aside connection rfl rfl rfl

/-- Every step is one of these changes. -/
theorem step_change (c : Client) (s : Step) : c.Change s (c.happens s) (c.step s).1 := by
  cases s with
  | submit a => exact c.submit_change a
  | query n =>
    change c.Change (.query n) [] (c.query n).1
    unfold query
    split
    · exact .aside c.connection rfl rfl rfl
    · next hopen => exact .asked n (Bool.eq_false_iff.2 hopen)
  | take => exact c.take_change
  | receive => exact c.receive_change
  | stop =>
    simp only [step, happens]
    split
    · exact .aside c.connection rfl rfl rfl
    · next hopen => exact close_change rfl rfl (Bool.eq_false_iff.2 hopen) .stopped c.connection
  | arrive piece => exact .aside _ rfl rfl rfl
  | closeOutput => exact .aside _ rfl rfl rfl
  | dropRemote => exact .aside _ rfl rfl rfl
  | failReads fault => exact .aside _ rfl rfl rfl
  | failWrites after => exact .aside _ rfl rfl rfl
  | failFlushes fault => exact .aside _ rfl rfl rfl
  | erase path => exact .erased path

theorem Change.dir_eq {c d : Client} {s : Step} {moments : List Moment}
    (h : c.Change s moments d) : d.scratch.toScratchDir = c.scratch.toScratchDir := by
  cases h with
  | queued a request inflight scratch hchecked hopen hhas hdir => exact hdir
  | duplicate request inflight rest scratch hqueue hmem hwithout => exact hwithout.dir_eq
  | unwritten request inflight rest written fault connection scratch hqueue hsend hwithout =>
    exact hwithout.dir_eq
  | responded response id inflight completion connection scratch htracked hwithout =>
    exact hwithout.dir_eq
  | ended ending connection scratch hloop hopen hwithout => exact hwithout.dir_eq
  | _ => rfl

/-- A step leaves the checks as they are. -/
theorem step_checked (c : Client) (s : Step) : (c.step s).1.checked = c.checked :=
  checked_congr (c.step_setup s) (c.step_change s).dir_eq

theorem finish_checked (c : Client) (id : RequestId) (inflight : Inflight)
    (completion : Completion) : (c.finish id inflight completion).1.checked = c.checked := by
  refine checked_congr (c.finish_setup id inflight completion) ?_
  rw [finish_fst]
  cases inflight.staged <;> rfl

theorem run_checked (c : Client) (steps : List Step) : (c.run steps).1.checked = c.checked := by
  induction steps generalizing c with
  | nil => rfl
  | cons s rest ih => exact (ih (c.step s).1).trans (c.step_checked s)

structure AtRest (c : Client) : Prop where
  ended : c.Ended
  table_eq : c.table.entries = []

theorem Change.atRest {c d : Client} {s : Step} {moments : List Moment}
    (h : c.Change s moments d) (hrest : c.closed = true → c.AtRest) (hclosed : d.closed = true) :
    d.AtRest := by
  have htaken : ∀ {command : Command} {rest : List Command},
      c.closed = true → c.queue ≠ command :: rest := by
    intro command rest hclosed hqueue
    rw [(hrest hclosed).ended.queue_nil] at hqueue
    cases hqueue
  cases h with
  | aside connection hattempt herased =>
    obtain ⟨⟨hclosed, hqueue⟩, htable⟩ := hrest hclosed
    exact ⟨⟨hclosed, hqueue⟩, htable⟩
  | erased path =>
    obtain ⟨⟨hclosed, hqueue⟩, htable⟩ := hrest hclosed
    exact ⟨⟨hclosed, hqueue⟩, htable⟩
  | rejected a why hchecked => exact hrest hclosed
  | late a request inflight hchecked hclosed => exact hrest hclosed
  | queued a request inflight scratch hchecked hopen hhas hdir =>
    exact absurd (hopen.symm.trans hclosed) Bool.false_ne_true
  | asked n hopen => exact absurd (hopen.symm.trans hclosed) Bool.false_ne_true
  | listed n rest hqueue => exact absurd hqueue (htaken hclosed)
  | duplicate request inflight rest scratch hqueue hmem hwithout =>
    exact absurd hqueue (htaken hclosed)
  | accepted request inflight rest table connection hqueue hentries =>
    exact absurd hqueue (htaken hclosed)
  | unwritten request inflight rest written fault connection scratch hqueue hsend hwithout =>
    exact ⟨⟨rfl, rfl⟩, rfl⟩
  | ignored response connection =>
    obtain ⟨⟨hclosed, hqueue⟩, htable⟩ := hrest hclosed
    exact ⟨⟨hclosed, hqueue⟩, htable⟩
  | responded response id inflight completion connection scratch htracked hwithout =>
    rw [Table.get?, (hrest hclosed).table_eq] at htracked
    cases htracked
  | ended ending connection scratch hloop hopen hwithout => exact ⟨⟨rfl, rfl⟩, rfl⟩

theorem run_atRest {c : Client} (hrest : c.closed = true → c.AtRest) (steps : List Step)
    (hclosed : (c.run steps).1.closed = true) : (c.run steps).1.AtRest := by
  induction steps generalizing c with
  | nil => exact hrest hclosed
  | cons s rest ih => exact ih (fun hstep => (c.step_change s).atRest hrest hstep) hclosed

/-- A new client does not count as closed. -/
theorem new_atRest (connection : Connection) (config : Config) (stager : Stager)
    (scratch : Scratch) : (Client.new connection config stager scratch).closed = true →
      (Client.new connection config stager scratch).AtRest := by
  rintro ⟨⟩

end Client

end RemoteEval
