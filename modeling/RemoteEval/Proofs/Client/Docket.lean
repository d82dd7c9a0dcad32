import RemoteEval.Proofs.Client.Order
import RemoteEval.Proofs.Client.Shown

/-!
What becomes of the calls of a run. A call returns at once, because it fails a check or comes after
the end of the loop; or its request waits in the queue until the loop takes it, or ends. The docket
of a run has the calls that have returned, in that order, and those that wait. It goes by the places
of calls in the queue and not by their ids, which calls may share.
-/
namespace RemoteEval

open scoped List

/-- What becomes of a call: it fails a check, or comes too late; the loop takes its request and
refuses it for its id, writes it whole or in part; or the loop ends before it takes the request. -/
inductive Fate where
  | rejected (why : Error)
  | late
  | duplicate
  | whole
  | cut (bytes : List UInt8)
  | left

namespace Fate

def result (a : Attempt) : Fate → Except Error Unit
  | .rejected why => .error why
  | .duplicate => .error (.duplicateId a.id)
  | .whole => .ok ()
  | _ => .error .connectionClosed

def queued : Fate → Bool
  | .rejected _ => false
  | .late => false
  | _ => true

def taken : Fate → Bool
  | .duplicate => true
  | .whole => true
  | .cut _ => true
  | _ => false

def registered : Fate → Bool
  | .whole => true
  | .cut _ => true
  | _ => false

def shut : Fate → Bool
  | .late => true
  | .cut _ => true
  | .left => true
  | _ => false

def wrote? (line : List UInt8) : Fate → Option (List UInt8)
  | .whole => some line
  | .cut bytes => some bytes
  | _ => none

end Fate

namespace Client

def frame (c : Client) (a : Attempt) : List UInt8 :=
  match c.checked a with
  | .ok (request, _) => request.wire
  | .error _ => []

def takings (c : Client) : List Step → List (Request × Inflight)
  | [] => []
  | s :: rest => (c.taken? s).toList ++ (c.step s).1.takings rest

theorem frame_of_checked {c : Client} {a : Attempt} {entry : Request × Inflight}
    (h : c.checked a = .ok entry) : c.frame a = entry.1.wire := by
  rw [frame, h]

/-- What calls and their requests have in common stands in the same order. -/
theorem map_of_checked {β : Type} {c : Client} {calls : List Attempt}
    {made : List (Request × Inflight)} {ofCall : Attempt → β} {ofEntry : Request × Inflight → β}
    (hsame : ∀ a entry, c.checked a = .ok entry → ofCall a = ofEntry entry)
    (h : calls.map c.checked = made.map .ok) : calls.map ofCall = made.map ofEntry := by
  induction calls generalizing made with
  | nil =>
    rw [List.map_nil, List.nil_eq, List.map_eq_nil_iff] at h
    rw [h]
    rfl
  | cons a rest ih =>
    obtain ⟨entry, left, rfl, hentry, hleft⟩ := List.map_eq_cons_iff.1 h.symm
    rw [List.map_cons, List.map_cons, hsame a entry hentry.symm, ih hleft.symm]

theorem replies_closing (c : Client) (ending : Ending) :
    (c.closing ending).filterMap Moment.reply? =
      c.waiting.map fun entry => .answered entry.1.id (.error .connectionClosed) := by
  have hfinished : (c.table.entries.map fun entry =>
      Moment.finished entry.1 entry.2 (.failure .connectionClosed)).filterMap Moment.reply? = [] := by
    rw [List.filterMap_map]
    exact List.filterMap_eq_nil_iff.2 fun _ _ => rfl
  have hrefused : (c.waiting.map fun entry =>
      Moment.answered entry.1.id (.error .connectionClosed)).filterMap Moment.reply? =
        c.waiting.map fun entry => .answered entry.1.id (.error .connectionClosed) := by
    rw [List.filterMap_map]
    exact congrFun (List.filterMap_eq_map' (f := fun entry : Request × Inflight =>
      Effect.answered entry.1.id (.error .connectionClosed))) c.waiting
  rw [closing, refusals_eq, List.cons_append, List.filterMap_cons_none rfl, List.filterMap_append,
    hfinished, hrefused, List.nil_append]

theorem wrote_closing (c : Client) (ending : Ending) :
    (c.closing ending).filterMap Moment.wrote? = [] := by
  rw [List.filterMap_eq_nil_iff]
  intro moment hmoment
  rcases mem_closing hmoment with rfl | ⟨entry, -, rfl⟩ | ⟨id, rfl⟩ <;> rfl

theorem frame_congr {c d : Client} (h : d.checked = c.checked) : d.frame = c.frame := by
  funext a
  rw [frame, h, frame]

end Client

def Fate.Fits (c : Client) (a : Attempt) : Fate → Prop
  | .rejected why => c.checked a = .error why
  | .cut bytes => bytes <+: c.frame a ∧ ∃ entry, c.checked a = .ok entry
  | _ => ∃ entry, c.checked a = .ok entry

theorem Fate.wrote?_of_unregistered {fate : Fate} (h : fate.registered = false)
    (line : List UInt8) : fate.wrote? line = none := by
  cases fate <;> first | rfl | cases h

theorem Fate.Fits.congr {c d : Client} {a : Attempt} {fate : Fate} (h : fate.Fits d a)
    (hchecked : d.checked = c.checked) : fate.Fits c a := by
  cases fate <;> simpa only [Fits, hchecked, Client.frame_congr hchecked] using h

/-- A call that passes its checks and whose request is not taken is told that the connection is
closed. -/
theorem Fate.Fits.untaken {c : Client} {a : Attempt} {fate : Fate} (h : fate.Fits c a)
    {entry : Request × Inflight} (hchecked : c.checked a = .ok entry)
    (htaken : fate.taken = false) :
    fate.result a = .error .connectionClosed ∧ fate.registered = false := by
  cases fate with
  | rejected why => cases h.symm.trans hchecked
  | late => exact ⟨rfl, rfl⟩
  | left => exact ⟨rfl, rfl⟩
  | duplicate => cases htaken
  | whole => cases htaken
  | cut bytes => cases htaken

def tearing (entry : Request × Inflight) (bytes : List UInt8) : List Moment :=
  [.registered entry.1 entry.2 bytes,
    .finished entry.1.id entry.2 (.failure .connectionClosed),
    .answered entry.1.id (.error .connectionClosed)]

/-- What becomes of calls while `c` comes to be `d` in some moments. Of the calls `before`, which
wait in the queue, and of those that come in, some are settled; the calls `after` wait then. -/
structure Settles (c : Client) (calls : List Attempt) (takings : List (Request × Inflight))
    (moments : List Moment) (d : Client) (before : List Attempt) (settled : List (Attempt × Fate))
    (after : List Attempt) : Prop where
  checked_eq : d.checked = c.checked
  calls_perm : before ++ calls ~ settled.map Prod.fst ++ after
  ordered : (settled.filter fun e => e.2.queued).map Prod.fst ++ after <+ before ++ calls
  waiting_eq : d.waiting.map .ok = after.map c.checked
  fits : ∀ e ∈ settled, e.2.Fits c e.1
  told : moments.filterMap Moment.reply? =
    settled.map fun e => .answered e.1.id (e.2.result e.1)
  takings_eq : takings.map .ok = (settled.filter fun e => e.2.taken).map fun e => c.checked e.1
  entries_eq : (entries moments).map .ok =
    (settled.filter fun e => e.2.registered).map fun e => c.checked e.1
  wrote_eq : moments.filterMap Moment.wrote? =
    settled.filterMap fun e => e.2.wrote? (c.frame e.1)
  torn : ∀ a bytes, (a, .cut bytes) ∈ settled →
    ∃ entry, c.checked a = .ok entry ∧ tearing entry bytes <:+: moments
  shut : ∀ e ∈ settled, e.2.shut = true → d.closed = true
  cut_last : settled.Pairwise fun e later => e.2.shut = true → later.2.taken = false
  barred : c.closed = true → ∀ e ∈ settled, e.2.taken = false
  still_closed : c.closed = true → d.closed = true

namespace Settles

variable {b c d : Client} {calls more : List Attempt} {takings others : List (Request × Inflight)}
  {moments later : List Moment} {before between after : List Attempt}
  {settled since : List (Attempt × Fate)}

theorem trans (h : Settles b calls takings moments c before settled between)
    (hnext : Settles c more others later d between since after) :
    Settles b (calls ++ more) (takings ++ others) (moments ++ later) d before (settled ++ since)
      after where
  checked_eq := hnext.checked_eq.trans h.checked_eq
  calls_perm := by
    have hfirst := h.calls_perm.append_right more
    have hsecond := hnext.calls_perm.append_left (settled.map Prod.fst)
    rw [List.map_append, ← List.append_assoc, List.append_assoc (settled.map Prod.fst)]
    rw [List.append_assoc (settled.map Prod.fst)] at hfirst
    exact hfirst.trans hsecond
  ordered := by
    have hfirst := h.ordered.append_right more
    have hsecond := hnext.ordered.append_left
      ((settled.filter fun e => e.2.queued).map Prod.fst)
    rw [List.filter_append, List.map_append, ← List.append_assoc, List.append_assoc]
    rw [List.append_assoc] at hfirst
    exact hsecond.trans hfirst
  waiting_eq := by rw [hnext.waiting_eq, h.checked_eq]
  fits := by
    rw [List.forall_mem_append]
    exact ⟨h.fits, fun e he => (hnext.fits e he).congr h.checked_eq⟩
  told := by rw [List.filterMap_append, List.map_append, h.told, hnext.told]
  takings_eq := by
    rw [List.map_append, List.filter_append, List.map_append, h.takings_eq, hnext.takings_eq,
      h.checked_eq]
  entries_eq := by
    rw [entries_append, List.map_append, List.filter_append, List.map_append, h.entries_eq,
      hnext.entries_eq, h.checked_eq]
  wrote_eq := by
    rw [List.filterMap_append, List.filterMap_append, h.wrote_eq, hnext.wrote_eq,
      Client.frame_congr h.checked_eq]
  torn := by
    intro a bytes hmem
    rcases List.mem_append.1 hmem with hmem | hmem
    · obtain ⟨entry, hchecked, htorn⟩ := h.torn a bytes hmem
      exact ⟨entry, hchecked, htorn.trans (List.prefix_append _ _).isInfix⟩
    · obtain ⟨entry, hchecked, htorn⟩ := hnext.torn a bytes hmem
      exact ⟨entry, h.checked_eq ▸ hchecked, htorn.trans (List.suffix_append _ _).isInfix⟩
  shut := by
    rw [List.forall_mem_append]
    exact ⟨fun e he hshut => hnext.still_closed (h.shut e he hshut), hnext.shut⟩
  cut_last := by
    rw [List.pairwise_append]
    exact ⟨h.cut_last, hnext.cut_last,
      fun e he other hother hshut => hnext.barred (h.shut e he hshut) other hother⟩
  barred := by
    intro hclosed
    rw [List.forall_mem_append]
    exact ⟨h.barred hclosed, hnext.barred (h.still_closed hclosed)⟩
  still_closed := fun hclosed => hnext.still_closed (h.still_closed hclosed)

/-- Nothing becomes of the calls that wait. -/
theorem quiet (hchecked : d.checked = c.checked) (hbefore : c.waiting.map .ok = before.map c.checked)
    (hwaiting : d.waiting = c.waiting) (htold : moments.filterMap Moment.reply? = [])
    (hentries : entries moments = []) (hwrote : moments.filterMap Moment.wrote? = [])
    (hclosed : c.closed = true → d.closed = true) :
    Settles c [] [] moments d before [] before where
  checked_eq := hchecked
  calls_perm := by simp
  ordered := by simp
  waiting_eq := hwaiting ▸ hbefore
  fits := by simp
  told := htold
  takings_eq := rfl
  entries_eq := by rw [hentries]; rfl
  wrote_eq := hwrote
  torn := by simp
  shut := by simp
  cut_last := List.Pairwise.nil
  barred := by simp
  still_closed := hclosed

/-- A call returns at once. -/
theorem returned {a : Attempt} (fate : Fate) (hbefore : c.waiting.map .ok = before.map c.checked)
    (hqueued : fate.queued = false) (hfits : fate.Fits c a)
    (hshut : fate.shut = true → c.closed = true) :
    Settles c [a] [] [.answered a.id (fate.result a)] c before [(a, fate)] before where
  checked_eq := rfl
  calls_perm := List.perm_append_comm
  ordered := by simp [hqueued]
  waiting_eq := hbefore
  fits := by simpa using hfits
  told := rfl
  takings_eq := by cases fate <;> first | rfl | cases hqueued
  entries_eq := by cases fate <;> first | rfl | cases hqueued
  wrote_eq := by cases fate <;> first | rfl | cases hqueued
  torn := by
    intro b bytes hmem
    cases List.mem_singleton.1 hmem
    cases hqueued
  shut := by simpa using hshut
  cut_last := List.pairwise_singleton _ _
  barred := by cases fate <;> simp [Fate.taken] <;> cases hqueued
  still_closed := id

/-- The request of a call comes into the queue. -/
theorem joined {a : Attempt} {entry : Request × Inflight} (hchecked : d.checked = c.checked)
    (hentry : c.checked a = .ok entry) (hbefore : c.waiting.map .ok = before.map c.checked)
    (hwaiting : d.waiting = c.waiting ++ [entry]) (hclosed : d.closed = c.closed) :
    Settles c [a] [] [] d before [] (before ++ [a]) where
  checked_eq := hchecked
  calls_perm := List.Perm.refl _
  ordered := List.Sublist.refl _
  waiting_eq := by simp [hwaiting, hbefore, hentry]
  fits := by simp
  told := rfl
  takings_eq := rfl
  entries_eq := rfl
  wrote_eq := rfl
  torn := by simp
  shut := by simp
  cut_last := List.Pairwise.nil
  barred := by simp
  still_closed := fun h => hclosed.trans h

/-- The loop takes the request at the front of the queue. -/
theorem front {a : Attempt} (fate : Fate) {entry : Request × Inflight}
    (hchecked : d.checked = c.checked) (hentry : c.checked a = .ok entry)
    (hafter : d.waiting.map .ok = after.map c.checked) (htaken : fate.taken = true)
    (hfits : fate.Fits c a)
    (htold : moments.filterMap Moment.reply? = [.answered a.id (fate.result a)])
    (hentries : entries moments = if fate.registered then [entry] else [])
    (hwrote : moments.filterMap Moment.wrote? = (fate.wrote? (c.frame a)).toList)
    (htorn : ∀ bytes, fate = .cut bytes → tearing entry bytes <:+: moments)
    (hshut : fate.shut = true → d.closed = true) (hopen : c.closed = false) :
    Settles c [] [entry] moments d (a :: after) [(a, fate)] after where
  checked_eq := hchecked
  calls_perm := by simp
  ordered := by
    have hqueued : fate.queued = true := by cases fate <;> first | rfl | cases htaken
    simp [hqueued]
  waiting_eq := hafter
  fits := by simpa using hfits
  told := htold
  takings_eq := by simp [htaken, hentry]
  entries_eq := by
    rw [hentries]
    cases hregistered : fate.registered <;> simp [hregistered, hentry]
  wrote_eq := by
    rw [hwrote, List.filterMap_cons]
    cases fate.wrote? (c.frame a) <;> rfl
  torn := by
    intro b bytes hmem
    cases List.mem_singleton.1 hmem
    exact ⟨entry, hentry, htorn bytes rfl⟩
  shut := by simpa using hshut
  cut_last := List.pairwise_singleton _ _
  barred := by
    intro hclosed
    cases hopen.symm.trans hclosed
  still_closed := by
    intro hclosed
    cases hopen.symm.trans hclosed

/-- The loop ends and leaves what waits. -/
theorem dropped (hchecked : d.checked = c.checked)
    (hbefore : c.waiting.map .ok = before.map c.checked) (hended : d.Ended) (ending : Ending) :
    Settles c [] [] (c.closing ending) d before (before.map fun a => (a, .left)) [] where
  checked_eq := hchecked
  calls_perm := by simp [Function.comp_def]
  ordered := by simp [List.filter_map, Function.comp_def, Fate.queued]
  waiting_eq := by rw [Client.waiting, hended.queue_nil]; rfl
  fits := by
    intro e he
    obtain ⟨a, ha, rfl⟩ := List.mem_map.1 he
    obtain ⟨entry, -, hentry⟩ := List.mem_map.1 (hbefore ▸ List.mem_map_of_mem ha)
    exact ⟨entry, hentry.symm⟩
  told := by
    have hids : before.map (fun a => Effect.answered a.id (.error .connectionClosed)) =
        c.waiting.map fun entry => .answered entry.1.id (.error .connectionClosed) :=
      Client.map_of_checked (fun _ _ h => by rw [Client.checked_id h]) hbefore.symm
    rw [c.replies_closing, ← hids, List.map_map]
    rfl
  takings_eq := by simp [List.filter_map, Function.comp_def, Fate.taken]
  entries_eq := by simp [c.entries_closing, List.filter_map, Function.comp_def, Fate.registered]
  wrote_eq := by simp [c.wrote_closing, List.filterMap_map, Fate.wrote?]
  torn := by simp
  shut := fun _ _ _ => hended.closed
  cut_last := by
    rw [List.pairwise_map]
    exact List.pairwise_of_forall fun _ _ _ => rfl
  barred := by simp [Fate.taken]
  still_closed := fun _ => hended.closed

end Settles

namespace Client

theorem Change.checked_eq {c d : Client} {s : Step} {moments : List Moment}
    (h : c.Change s moments d) : d.checked = c.checked := by
  refine checked_congr ?_ h.dir_eq
  cases h <;> exact ⟨rfl, rfl, rfl, rfl⟩

/-- The request at the front of the queue is that of the first call that waits. -/
theorem exists_front {c : Client} {before : List Attempt} {request : Request}
    {inflight : Inflight} {rest : List Command}
    (hbefore : c.waiting.map .ok = before.map c.checked)
    (hqueue : c.queue = .send request inflight :: rest) :
    ∃ a others, before = a :: others ∧ c.checked a = .ok (request, inflight) ∧
      { c with queue := rest }.waiting.map .ok = others.map c.checked := by
  rw [waiting_cons hqueue] at hbefore
  obtain ⟨a, others, rfl, ha, hothers⟩ := List.map_eq_cons_iff.1 hbefore.symm
  exact ⟨a, others, rfl, ha, hothers.symm⟩

theorem taken?_take {c : Client} {command : Command} {rest : List Command}
    (hqueue : c.queue = command :: rest) : c.taken? .take = command.entry? := by
  rw [taken?, hqueue]
  rfl

/-- A request that is not written through is the last that the loop takes. -/
theorem unwritten_settles {c : Client} {a : Attempt} {others : List Attempt}
    {request : Request} {inflight : Inflight} {rest : List Command} {written : List UInt8}
    {fault : Fault} {connection : Connection} {scratch : Scratch}
    (hchecked : c.checked a = .ok (request, inflight))
    (hafter : { c with queue := rest }.waiting.map .ok = others.map c.checked)
    (hsend : c.connection.send request = (written, some fault, connection))
    (hdir : scratch.toScratchDir = c.scratch.toScratchDir) (hopen : c.closed = false) :
    Settles c [] [(request, inflight)]
      (tearing (request, inflight) written ++ { c with queue := rest }.closing (.io fault))
      { c with connection, scratch, table := .empty, queue := [], closed := true }
      (a :: others) ((a, .cut written) :: others.map fun b => (b, .left)) [] := by
  have hsame : ({ c with queue := rest, closed := true } : Client).checked = c.checked :=
    checked_congr ⟨rfl, rfl, rfl, rfl⟩ rfl
  have hfits : (Fate.cut written).Fits c a := by
    refine ⟨?_, _, hchecked⟩
    rw [frame_of_checked hchecked]
    exact Connection.written_prefix hsend
  have htold := congrArg (fun id => [Effect.answered id (.error .connectionClosed)])
    (checked_id hchecked)
  have hcut : Settles c [] [(request, inflight)] (tearing (request, inflight) written)
      { c with queue := rest, closed := true } (a :: others) [(a, .cut written)] others :=
    .front (.cut written) hsame hchecked hafter rfl hfits htold rfl rfl
      (by rintro _ ⟨⟩; exact List.infix_refl _) (fun _ => rfl) hopen
  have hdropped := Settles.dropped (c := { c with queue := rest, closed := true })
    (d := { c with connection, scratch, table := .empty, queue := [], closed := true })
    (checked_congr ⟨rfl, rfl, rfl, rfl⟩ hdir) (by rw [hsame]; exact hafter) ⟨rfl, rfl⟩ (.io fault)
  exact hcut.trans hdropped

/-- What becomes of calls in a step. -/
theorem Change.settles {c d : Client} {s : Step} {moments : List Moment} {before : List Attempt}
    (h : c.Change s moments d) (hrest : c.closed = true → c.AtRest)
    (hbefore : c.waiting.map .ok = before.map c.checked) :
    ∃ settled after, Settles c s.attempt?.toList (c.taken? s).toList moments d before settled
      after := by
  have hsame := h.checked_eq
  have hrunning : ∀ {command : Command} {rest : List Command}, c.queue = command :: rest →
      c.closed = false := by
    intro command rest hqueue
    rw [Bool.eq_false_iff]
    intro hclosed
    rw [(hrest hclosed).ended.queue_nil] at hqueue
    cases hqueue
  cases h with
  | aside connection hattempt herased htaken =>
    rw [hattempt, htaken]
    exact ⟨_, _, .quiet hsame hbefore rfl rfl rfl rfl id⟩
  | erased path => exact ⟨_, _, .quiet hsame hbefore rfl rfl rfl rfl id⟩
  | rejected a why hchecked =>
    exact ⟨_, _, .returned (.rejected why) hbefore rfl hchecked (by rintro ⟨⟩)⟩
  | late a request inflight hchecked hclosed =>
    exact ⟨_, _, .returned .late hbefore rfl ⟨_, hchecked⟩ fun _ => hclosed⟩
  | queued a request inflight scratch hchecked hopen hhas hdir =>
    refine ⟨_, _, .joined hsame hchecked hbefore ?_ rfl⟩
    rw [waiting, List.filterMap_append]
    rfl
  | asked n hopen =>
    refine ⟨_, _, .quiet hsame hbefore ?_ rfl rfl rfl id⟩
    rw [waiting, List.filterMap_append]
    exact List.append_nil _
  | listed n rest hqueue =>
    rw [taken?_take hqueue]
    exact ⟨_, _, .quiet hsame hbefore (waiting_cons hqueue).symm rfl rfl rfl id⟩
  | duplicate request inflight rest scratch hqueue hmem hwithout =>
    obtain ⟨a, others, rfl, ha, hafter⟩ := exists_front hbefore hqueue
    have htold := congrArg (fun id => [Effect.answered id (.error (.duplicateId id))])
      (checked_id ha)
    rw [taken?_take hqueue]
    exact ⟨_, _, .front .duplicate hsame ha hafter rfl ⟨_, ha⟩ htold rfl rfl
      (by rintro _ ⟨⟩) (by rintro ⟨⟩) (hrunning hqueue)⟩
  | accepted request inflight rest table connection hqueue hentries =>
    obtain ⟨a, others, rfl, ha, hafter⟩ := exists_front hbefore hqueue
    have htold := congrArg (fun id => [Effect.answered id (.ok ())]) (checked_id ha)
    rw [taken?_take hqueue]
    exact ⟨_, _, .front .whole hsame ha hafter rfl ⟨_, ha⟩ htold rfl
      (by rw [frame_of_checked ha]; rfl) (by rintro _ ⟨⟩) (by rintro ⟨⟩) (hrunning hqueue)⟩
  | unwritten request inflight rest written fault connection scratch hqueue hsend hwithout =>
    obtain ⟨a, others, rfl, ha, hafter⟩ := exists_front hbefore hqueue
    rw [taken?_take hqueue]
    exact ⟨_, _, unwritten_settles ha hafter hsend hwithout.dir_eq (hrunning hqueue)⟩
  | ignored response connection => exact ⟨_, _, .quiet hsame hbefore rfl rfl rfl rfl id⟩
  | responded response other inflight completion connection scratch htracked hwithout =>
    exact ⟨_, _, .quiet hsame hbefore rfl rfl rfl rfl id⟩
  | ended ending connection scratch hloop hopen hwithout htaken =>
    have hattempt : s.attempt? = none := by cases s <;> first | rfl | cases hloop
    rw [hattempt, htaken]
    exact ⟨_, _, .dropped hsame hbefore ⟨rfl, rfl⟩ ending⟩

/-- What becomes of calls in a run. -/
theorem settles_run {c : Client} {before : List Attempt} (hrest : c.closed = true → c.AtRest)
    (hbefore : c.waiting.map .ok = before.map c.checked) (steps : List Step) :
    ∃ settled after, Settles c (attempts steps) (c.takings steps) (c.history steps)
      (c.run steps).1 before settled after := by
  induction steps generalizing c before with
  | nil => exact ⟨_, _, .quiet rfl hbefore rfl rfl rfl rfl id⟩
  | cons s rest ih =>
    have hchange := c.step_change s
    obtain ⟨settled, between, hstep⟩ := hchange.settles hrest hbefore
    have hwaiting : (c.step s).1.waiting.map .ok = between.map (c.step s).1.checked := by
      rw [hstep.waiting_eq, hstep.checked_eq]
    obtain ⟨since, after, hlater⟩ := ih (hchange.atRest hrest) hwaiting
    rw [attempts_cons]
    exact ⟨_, _, hstep.trans hlater⟩

end Client

/-- The docket of a run: the calls that have returned, in that order, each with what has become of
it, and the calls that wait in the queue. -/
structure Docket (c : Client) (steps : List Step) (settled : List (Attempt × Fate))
    (waiting : List Attempt) : Prop where
  calls_perm : attempts steps ~ settled.map Prod.fst ++ waiting
  ordered : (settled.filter fun e => e.2.queued).map Prod.fst ++ waiting <+ attempts steps
  waiting_eq : (c.run steps).1.waiting.map .ok = waiting.map c.checked
  fits : ∀ e ∈ settled, e.2.Fits c e.1
  told : (c.run steps).2.filter Effect.ofAnswer =
    settled.map fun e => .answered e.1.id (e.2.result e.1)
  takings_eq : (c.takings steps).map .ok =
    (settled.filter fun e => e.2.taken).map fun e => c.checked e.1
  entries_eq : (entries (c.history steps)).map .ok =
    (settled.filter fun e => e.2.registered).map fun e => c.checked e.1
  wrote_eq : (c.run steps).2.filterMap Effect.wrote? =
    settled.filterMap fun e => e.2.wrote? (c.frame e.1)
  torn : ∀ a bytes, (a, .cut bytes) ∈ settled → ∃ entry, c.checked a = .ok entry ∧
    (tearing entry bytes).flatMap c.shows <:+: Client.aboutRequests (c.run steps).2
  shut : ∀ e ∈ settled, e.2.shut = true → (c.run steps).1.closed = true
  cut_last : settled.Pairwise fun e later => e.2.shut = true → later.2.taken = false

/-- Every run of a client that starts without requests has a docket, whatever ids its calls have. -/
theorem Client.exists_docket {c : Client} (hrest : c.closed = true → c.AtRest)
    (hwaiting : c.waiting = []) (steps : List Step) :
    ∃ settled waiting, Docket c steps settled waiting := by
  have hbefore : c.waiting.map .ok = ([] : List Attempt).map c.checked := by
    rw [hwaiting]
    rfl
  obtain ⟨settled, waiting, h⟩ := settles_run hrest hbefore steps
  refine ⟨settled, waiting, h.calls_perm, h.ordered, h.waiting_eq, h.fits, ?_, h.takings_eq,
    h.entries_eq, ?_, ?_, h.shut, h.cut_last⟩
  · rw [c.replies_run, h.told]
  · rw [c.wrote_run, h.wrote_eq]
  · intro a bytes hmem
    obtain ⟨entry, hchecked, front, back, hsplit⟩ := h.torn a bytes hmem
    refine ⟨entry, hchecked, front.flatMap c.shows, back.flatMap c.shows, ?_⟩
    rw [c.aboutRequests_run, ← hsplit, List.flatMap_append, List.flatMap_append]

namespace Docket

variable {c : Client} {steps : List Step} {settled : List (Attempt × Fate)}
  {waiting : List Attempt}

theorem exists_registered (h : Docket c steps settled waiting) {entry : Request × Inflight}
    (hentry : entry ∈ entries (c.history steps)) :
    ∃ e ∈ settled, e.2.registered = true ∧ c.checked e.1 = .ok entry := by
  obtain ⟨e, he, hchecked⟩ := List.mem_map.1 (h.entries_eq ▸ List.mem_map_of_mem hentry)
  obtain ⟨hin, hregistered⟩ := List.mem_filter.1 he
  exact ⟨e, hin, hregistered, hchecked⟩

theorem exists_waiting (h : Docket c steps settled waiting) {entry : Request × Inflight}
    (hentry : entry ∈ (c.run steps).1.waiting) : ∃ a ∈ waiting, c.checked a = .ok entry :=
  List.mem_map.1 (h.waiting_eq ▸ List.mem_map_of_mem hentry)

end Docket

end RemoteEval
