import RemoteEval.Proofs.Client.Hearing
import RemoteEval.Proofs.Client.Listing

/-!
The blocks of a run. All that the loop shows its environment is one block behind another: a request
begins, or it ends. The end of a request is shown in one piece: the display of its failure, its
callback, the release of its scratch file, the end of progress, and its ticket. The blocks of one id
take turns, and those that responses bring about come in the order of the responses.
-/
namespace RemoteEval

open scoped List

/-- The calls to the environment, callbacks, releases of files and tickets, all of which are the
loop's. The highlight of a part that is sent is not: its sender asks for it. -/
def Effect.inBlock : Effect → Bool
  | .editor (.flash _ _ _) => false
  | .editor _ => true
  | .callback _ _ => true
  | .release _ _ => true
  | .resolved _ _ => true
  | _ => false

def Effect.displays : Effect → Bool
  | .editor (.diagnostic _ _) => true
  | .editor (.notice _ _) => true
  | _ => false

theorem Effect.ofRequest_of_inBlock {effect : Effect} (h : effect.inBlock = true) :
    effect.ofRequest = true := by
  cases effect with
  | editor call => cases call <;> first | rfl | cases h
  | _ => first | rfl | cases h

theorem Effect.inBlock_of_displays {effect : Effect} (h : effect.displays = true) :
    effect.inBlock = true := by
  cases effect with
  | editor call => cases call <;> first | rfl | cases h
  | _ => cases h

def failureCall (session : String) (display : ErrorDisplay) (origin message : String)
    (stack : List String) : EditorCall :=
  match display with
  | .diagnostics =>
    .diagnostic session (stack.foldl (fun text frame => text ++ "\n" ++ frame) message)
  | .notification => .notice origin message

def displayed (session : String) (display : ErrorDisplay) (origin : String) :
    Completion → List Effect
  | .failure (.eval message stack) =>
    [.editor (failureCall session display origin message stack)]
  | .failure .connectionClosed => []
  | .success => []

inductive Block where
  | started (id : RequestId) (inflight : Inflight)
  | closing (id : RequestId) (inflight : Inflight) (completion : Completion)

namespace Block

def id : Block → RequestId
  | .started id _ => id
  | .closing id _ _ => id

def effects (session : String) (display : ErrorDisplay) : Block → List Effect
  | .started _ inflight => [.editor (.progress inflight.origin .started)]
  | .closing id inflight completion =>
    displayed session display inflight.origin completion ++
      (if inflight.callbacks.wants completion then [.callback id completion] else []) ++
      inflight.staged.toList.map (.release id) ++
      [.editor (.progress inflight.origin .stopped), .resolved id completion]

def begun? : Block → Option (RequestId × Inflight)
  | .started id inflight => some (id, inflight)
  | .closing _ _ _ => none

def verdict? : Block → Option (RequestId × Completion)
  | .closing _ _ (.failure .connectionClosed) => none
  | .closing id _ completion => some (id, completion)
  | .started _ _ => none

/-- Blocks of one id that take turns: it begins if nothing is held under it, and what ends is what
is held. -/
inductive Alternate (id : RequestId) : Option Inflight → List Block → Option Inflight → Prop where
  | nil (held : Option Inflight) : Alternate id held [] held
  | started {inflight : Inflight} {rest : List Block} {last : Option Inflight}
      (hrest : Alternate id (some inflight) rest last) :
      Alternate id none (.started id inflight :: rest) last
  | closing {inflight : Inflight} {rest : List Block} {last : Option Inflight}
      (completion : Completion) (hrest : Alternate id none rest last) :
      Alternate id (some inflight) (.closing id inflight completion :: rest) last

theorem Alternate.append {id : RequestId} {first held last : Option Inflight}
    {blocks more : List Block} (h : Alternate id first blocks held)
    (hmore : Alternate id held more last) : Alternate id first (blocks ++ more) last := by
  induction h with
  | nil held => exact hmore
  | started hrest ih => exact .started (ih hmore)
  | closing completion hrest ih => exact .closing completion (ih hmore)

theorem inBlock_of_mem_effects {session : String} {display : ErrorDisplay} {block : Block}
    {effect : Effect} (h : effect ∈ block.effects session display) : effect.inBlock = true := by
  cases block with
  | started id inflight =>
    cases List.mem_singleton.1 h
    rfl
  | closing id inflight completion =>
    simp only [effects, List.mem_append, List.mem_cons, List.not_mem_nil, or_false] at h
    rcases h with ((hdisplayed | hcalled) | hreleased) | rfl | rfl
    · unfold displayed at hdisplayed
      split at hdisplayed
      · cases List.mem_singleton.1 hdisplayed
        unfold failureCall
        split <;> rfl
      · cases hdisplayed
      · cases hdisplayed
    · split at hcalled
      · cases List.mem_singleton.1 hcalled
        rfl
      · cases hcalled
    · obtain ⟨path, -, rfl⟩ := List.mem_map.1 hreleased
      rfl
    · rfl
    · rfl

/-- A block displays nothing but the failure that it ends a request with. -/
theorem eq_of_displays {session : String} {display : ErrorDisplay} {block : Block}
    {effect : Effect} (h : effect ∈ block.effects session display)
    (hdisplays : effect.displays = true) :
    ∃ id inflight message stack, block = .closing id inflight (.failure (.eval message stack)) ∧
      effect = .editor (failureCall session display inflight.origin message stack) := by
  cases block with
  | started id inflight =>
    cases List.mem_singleton.1 h
    cases hdisplays
  | closing id inflight completion =>
    simp only [effects, List.mem_append, List.mem_cons, List.not_mem_nil, or_false] at h
    rcases h with ((hdisplayed | hcalled) | hreleased) | rfl | rfl
    · unfold displayed at hdisplayed
      split at hdisplayed
      · exact ⟨id, inflight, _, _, rfl, List.mem_singleton.1 hdisplayed⟩
      · cases hdisplayed
      · cases hdisplayed
    · split at hcalled
      · cases List.mem_singleton.1 hcalled
        cases hdisplays
      · cases hcalled
    · obtain ⟨path, -, rfl⟩ := List.mem_map.1 hreleased
      cases hdisplays
    · cases hdisplays
    · cases hdisplays

end Block

theorem Response.eq_of_verdict {response : Response} {id : RequestId} {message : String}
    {stack : List String} (h : response.verdict? = some (id, .failure (.eval message stack))) :
    response = .failure id message stack := by
  cases response <;> cases h
  rfl

def Moment.block? : Moment → Option Block
  | .registered request inflight _ => some (.started request.id inflight)
  | .finished id inflight completion => some (.closing id inflight completion)
  | _ => none

def blocks (moments : List Moment) : List Block := moments.filterMap Moment.block?

theorem blocks_append (first second : List Moment) :
    blocks (first ++ second) = blocks first ++ blocks second :=
  List.filterMap_append

/-- The blocks of one id are shown by the moments in the life of its request. -/
theorem filter_blocks (id : RequestId) (moments : List Moment) :
    ((blocks moments).filter fun block => block.id == id) = blocks (dealings id moments) := by
  induction moments with
  | nil => rfl
  | cons moment rest ih =>
    have hsplit : ∀ more : List Moment, blocks (moment :: more) = blocks [moment] ++ blocks more :=
      fun more => blocks_append [moment] more
    have hfirst : ((blocks [moment]).filter fun block => block.id == id) =
        blocks (dealings id [moment]) := by
      cases moment with
      | registered request inflight written =>
        by_cases hid : request.id = id <;>
          simp [blocks, dealings, Moment.block?, Moment.about, Block.id, hid]
      | finished other inflight completion =>
        by_cases hid : other = id <;>
          simp [blocks, dealings, Moment.block?, Moment.about, Block.id, hid]
      | answered other result =>
        by_cases hid : other = id <;> simp [blocks, dealings, Moment.block?, Moment.about, hid]
      | dispatched response => rfl
      | ended ending => rfl
    rw [hsplit, List.filter_append, ih, hfirst, ← blocks_append, ← dealings_append]
    rfl

/-- Moments that only answer calls show no block. -/
theorem blocks_of_answered {moments : List Moment}
    (h : ∀ moment ∈ moments, ∃ id result, moment = .answered id result) : blocks moments = [] :=
  filterMap_of_answered (fun _ _ => rfl) h

theorem blocks_dealings_answered (id other : RequestId) (result : Except Error Unit) :
    blocks (dealings id [.answered other result]) = [] := by
  refine blocks_of_answered ?_
  intro moment hmoment
  exact ⟨other, result, List.mem_singleton.1 (List.mem_of_mem_filter hmoment)⟩

/-- What begins is what is registered. -/
theorem begun_blocks (moments : List Moment) :
    (blocks moments).filterMap Block.begun? = (entries moments).map tracking := by
  rw [blocks, entries, List.filterMap_filterMap, List.map_filterMap]
  refine List.filterMap_congr ?_
  intro moment _
  cases moment <;> rfl

/-- A call to send shows no block. -/
theorem Call.alternate {a : Attempt} {p q : Place} {moments : List Moment}
    (h : Call a p moments q) :
    Block.Alternate a.id p.tracked (blocks (dealings a.id moments)) q.tracked := by
  cases h with
  | refused why =>
    rw [blocks_dealings_answered]
    exact .nil p.tracked
  | queued request inflight horigin hcallbacks hopen => exact .nil p.tracked

/-- A turn of a request shows blocks that go with what the table holds for it before and after. -/
theorem Turn.alternate {id : RequestId} {p q : Place} {moments : List Moment}
    (h : Turn id p moments q) :
    Block.Alternate id p.tracked (blocks (dealings id moments)) q.tracked := by
  have hanswered : ∀ {α : Type} (rest : List α),
      blocks (rest.map fun _ => .answered id (.error .connectionClosed)) = [] := by
    intro α rest
    refine blocks_of_answered ?_
    intro moment hmoment
    obtain ⟨other, -, rfl⟩ := List.mem_map.1 hmoment
    exact ⟨_, _, rfl⟩
  cases h with
  | aside hdealings houtcome =>
    rw [hdealings]
    exact .nil p.tracked
  | duplicate queued rest hqueued htracked =>
    rw [blocks_dealings_answered]
    exact .nil p.tracked
  | accepted request inflight written rest hid hqueued hfree =>
    subst hid
    rw [hfree]
    simp only [dealings, Moment.about, beq_self_eq_true, List.filter_cons_of_pos, List.filter_nil]
    exact .started (.nil _)
  | unwritten request inflight written rest hqueued hfree hdealings hdecided =>
    have hid : request.id = id := by
      have hmem : .registered request inflight written ∈ dealings id moments := by
        rw [hdealings]
        exact List.mem_cons_self
      simpa [Moment.about] using (List.mem_filter.1 hmem).2
    subst hid
    rw [hfree, hdealings, blocks_append, hanswered, List.append_nil]
    exact .started (.closing _ (.nil none))
  | ended hdealings houtcome =>
    rw [hdealings, blocks_append, hanswered, List.append_nil]
    cases p.tracked with
    | none => exact .nil none
    | some inflight => exact .closing _ (.nil none)
  | responded inflight completion htracked hdealings houtcome =>
    rw [htracked, hdealings]
    exact .closing completion (.nil none)

namespace Client

theorem displayed_eq (c : Client) (origin message : String) (stack : List String) :
    c.displayed origin (.eval message stack) =
      .editor (failureCall c.session c.display origin message stack) := by
  have htext : (Failure.eval message stack).text =
      stack.foldl (fun text frame => text ++ "\n" ++ frame) message := by
    rw [Failure.text]
    change "\n".intercalate (message :: stack) = _
    induction stack generalizing message with
    | nil => rfl
    | cons frame rest ih => exact ih (message ++ "\n" ++ frame)
  unfold displayed failureCall
  cases c.display with
  | diagnostics => exact congrArg (fun text => Effect.editor (.diagnostic c.session text)) htext
  | notification => rfl

/-- The end of a request is seen as one block. -/
theorem ending_eq (c : Client) (id : RequestId) (inflight : Inflight) (completion : Completion) :
    c.ending id inflight completion =
      (Block.closing id inflight completion).effects c.session c.display := by
  have hcomplaint : c.complaint inflight.origin completion =
      RemoteEval.displayed c.session c.display inflight.origin completion := by
    unfold complaint RemoteEval.displayed
    split
    · rw [displayed_eq]
    · split
      · next hother => exact absurd rfl (hother _ _)
      · rfl
      · rfl
  rw [ending, hcomplaint]
  rfl

/-- Of what a moment shows all that is the loop's is one block. -/
theorem filter_shows (c : Client) (moment : Moment) :
    (c.shows moment).filter Effect.inBlock =
      moment.block?.elim [] (Block.effects c.session c.display) := by
  cases moment with
  | finished id inflight completion =>
    rw [shows, ending_eq]
    exact List.filter_eq_self.2 fun effect heffect => Block.inBlock_of_mem_effects heffect
  | _ => rfl

/-- What is seen of some moments is one block behind another. -/
theorem filter_of_shown {c : Client} {effects : List Effect} {moments : List Moment}
    (h : aboutRequests effects = moments.flatMap c.shows) :
    effects.filter Effect.inBlock =
      (blocks moments).flatMap (Block.effects c.session c.display) := by
  rw [filter_narrow fun _ => Effect.ofRequest_of_inBlock]
  change (aboutRequests effects).filter Effect.inBlock = _
  rw [h, List.filter_flatMap, blocks]
  exact flatMap_shown fun moment _ => c.filter_shows moment

theorem blocks_closing (c : Client) (ending : Ending) : blocks (c.closing ending) =
    c.table.entries.map fun entry => .closing entry.1 entry.2 (.failure .connectionClosed) := by
  rw [blocks, filterMap_closing (fun _ _ => rfl) fun _ => rfl]
  exact congrFun List.filterMap_eq_map _

/-- The blocks of one id that a step shows go with what the table holds under the id. -/
theorem step_alternate (c : Client) (id : RequestId) (s : Step) :
    Block.Alternate id (c.table.get? id) (blocks (dealings id (c.happens s)))
      ((c.step s).1.table.get? id) := by
  by_cases hown : ∃ a, s = .submit a ∧ a.id = id
  · obtain ⟨a, rfl, rfl⟩ := hown
    exact (c.submit_call a).alternate
  · exact (c.step_turn fun a ha hid => hown ⟨a, ha, hid⟩).alternate

theorem run_alternate (c : Client) (id : RequestId) (steps : List Step) :
    Block.Alternate id (c.table.get? id)
      ((blocks (c.history steps)).filter fun block => block.id == id)
      ((c.run steps).1.table.get? id) := by
  rw [filter_blocks]
  induction steps generalizing c with
  | nil => exact .nil _
  | cons s rest ih =>
    rw [history, dealings_append, blocks_append, run, andThen_fst]
    exact (c.step_alternate id s).append (ih (c.step s).1)

/-- A lost connection answers no request. -/
theorem verdicts_closing (c : Client) (ending : Ending) :
    (blocks (c.closing ending)).filterMap Block.verdict? = [] := by
  rw [blocks_closing, List.filterMap_eq_nil_iff]
  intro block hblock
  obtain ⟨entry, -, rfl⟩ := List.mem_map.1 hblock
  rfl

/-- A response shows the block that ends its request, if there is one, and no other. -/
theorem blocks_dispatching (c : Client) (response : Response) :
    blocks (c.dispatching response) =
      (c.endedBy response).toList.map fun ended => .closing ended.1 ended.2.1 ended.2.2 := by
  unfold dispatching
  cases c.endedBy response <;> rfl

theorem blocks_of_dispatched {c : Client} {s : Step} {response : Response}
    (h : .dispatched response ∈ c.happens s) : blocks (c.happens s) =
      (c.endedBy response).toList.map fun ended => .closing ended.1 ended.2.1 ended.2.2 := by
  have hreceive : s = .receive := by
    by_contra hother
    have hmem : response ∈ responses (c.happens s) := List.mem_filterMap.2 ⟨_, h, rfl⟩
    rw [c.responses_happens hother] at hmem
    cases hmem
  subst hreceive
  rw [← blocks_dispatching]
  exact congrArg blocks (receiving_of_dispatched h)

theorem verdicts_dispatching (c : Client) (response : Response) :
    (blocks (c.dispatching response)).filterMap Block.verdict? <+ response.verdict?.toList := by
  rw [blocks_dispatching]
  cases hended : c.endedBy response with
  | none => exact List.nil_sublist _
  | some ended =>
    obtain ⟨id, inflight, completion⟩ := ended
    obtain ⟨hverdict, -⟩ := endedBy_some hended
    cases response <;> cases hverdict <;> exact List.Sublist.refl _

theorem Change.verdicts {c d : Client} {s : Step} {moments : List Moment}
    (h : c.Change s moments d) (hother : s ≠ .receive) :
    (blocks moments).filterMap Block.verdict? = [] := by
  cases h with
  | unwritten request inflight rest written fault connection scratch hqueue hsend hwithout =>
    rw [blocks_append, List.filterMap_append, verdicts_closing]
    rfl
  | ignored response connection => exact absurd rfl hother
  | responded response id inflight completion connection scratch htracked hwithout =>
    exact absurd rfl hother
  | ended ending connection scratch hloop hopen hwithout => exact c.verdicts_closing ending
  | _ => rfl

/-- A step answers a request only by the response that it dispatches. -/
theorem verdicts_happens (c : Client) (s : Step) :
    (blocks (c.happens s)).filterMap Block.verdict? <+
      (responses (c.happens s)).filterMap Response.verdict? := by
  by_cases hreceive : s = .receive
  · subst hreceive
    have hclosing : ∀ ending : Ending, (blocks (c.closing ending)).filterMap Block.verdict? <+
        (responses (c.closing ending)).filterMap Response.verdict? := by
      intro ending
      rw [verdicts_closing]
      exact List.nil_sublist _
    change (blocks c.receiving).filterMap Block.verdict? <+
      (responses c.receiving).filterMap Response.verdict?
    unfold receiving
    split
    · exact List.nil_sublist _
    · cases c.connection.receive.1 with
      | response response =>
        have hverdicts := c.verdicts_dispatching response
        rw [responses_dispatching, List.filterMap_cons]
        cases hverdict : response.verdict? <;> rwa [hverdict] at hverdicts
      | ended => exact hclosing .remoteClosed
      | failed fault => exact hclosing (.io fault)
      | waiting => exact List.nil_sublist _
  · rw [(c.step_change s).verdicts hreceive]
    exact List.nil_sublist _

/-- Requests are answered in the order of the responses. -/
theorem verdicts_run (c : Client) (steps : List Step) :
    (blocks (c.history steps)).filterMap Block.verdict? <+
      (responses (c.history steps)).filterMap Response.verdict? := by
  induction steps generalizing c with
  | nil => exact List.nil_sublist _
  | cons s rest ih =>
    rw [history, blocks_append, responses_append, List.filterMap_append, List.filterMap_append]
    exact (c.verdicts_happens s).append (ih (c.step s).1)

theorem filter_finish_closed (c : Client) (id : RequestId) (inflight : Inflight) :
    (c.finish id inflight (.failure .connectionClosed)).2.filter Effect.inBlock =
      (Block.closing id inflight (.failure .connectionClosed)).effects c.session c.display := by
  have hshown : aboutRequests (c.finish id inflight (.failure .connectionClosed)).2 =
      [Moment.finished id inflight (.failure .connectionClosed)].flatMap c.shows := by
    rw [List.flatMap_singleton]
    exact c.aboutRequests_finish_closed id inflight
  rw [filter_of_shown hshown]
  exact List.append_nil _

/-- While others race with the end of the loop it shows one block for each request that was left,
and no other. -/
theorem Winds.shown {c : Client} {left : List (RequestId × Inflight)} {others : List Step}
    {out : Client × List Effect} (h : c.Winds left others out) (hopen : c.closed = false) :
    out.2.filter Effect.inBlock =
      (left.map fun entry => Block.closing entry.1 entry.2 (.failure .connectionClosed)).flatMap
        (Block.effects c.session c.display) := by
  induction h with
  | done c =>
    rw [filter_of_shown (aboutRequests_refuseAll _ c.queue),
      blocks_of_answered (answered_of_refusals c.queue)]
    rfl
  | finish c id inflight hrest ih =>
    have hsetup := c.finish_setup id inflight (.failure .connectionClosed)
    rw [andThen_snd, List.filter_append, filter_finish_closed,
      ih (by rw [finish_fst]; exact hopen), hsetup.session, hsetup.display]
    rfl
  | amid c s hother hrest ih =>
    have hamid := (c.step_change s).amid hopen hother
    rw [andThen_snd, List.filter_append, filter_of_shown (c.aboutRequests_step s),
      blocks_of_answered hamid.answered, ih hamid.opened, (c.step_setup s).session,
      (c.step_setup s).display]
    rfl

structure InBlocks (c : Client) (steps : List Step) : Prop where
  shown : (c.run steps).2.filter Effect.inBlock =
    (blocks (c.history steps)).flatMap (Block.effects c.session c.display)
  begun : (blocks (c.history steps)).filterMap Block.begun? <+
    (c.made (attempts steps)).map tracking
  /-- Of one id blocks that begin and blocks that end take turns; what has begun and not ended is in
  the table. -/
  paired : ∀ id, Block.Alternate id none
    ((blocks (c.history steps)).filter fun block => block.id == id)
    ((c.run steps).1.table.get? id)
  all_closed : (c.run steps).1.closed = true → ∀ id, Block.Alternate id none
    ((blocks (c.history steps)).filter fun block => block.id == id) none
  once : ((attempts steps).map Attempt.id).Nodup →
    (((blocks (c.history steps)).filterMap Block.begun?).map Prod.fst).Nodup
  /-- The step that dispatches a response shows the block that ends its request, if one waits for
  it, and no other. -/
  caused : ∀ before s, before ++ [s] <+: steps → ∀ response,
    .dispatched response ∈ (c.run before).1.happens s →
    blocks ((c.run before).1.happens s) = ((c.run before).1.endedBy response).toList.map
      fun ended => .closing ended.1 ended.2.1 ended.2.2
  verdicts : (blocks (c.history steps)).filterMap Block.verdict? <+
    (responses (c.history steps)).filterMap Response.verdict?
  heard : responses (c.history steps) <+: c.stream steps
  displayed : ∀ effect ∈ (c.run steps).2, effect.displays = true →
    ∃ id inflight message stack,
      .closing id inflight (.failure (.eval message stack)) ∈ blocks (c.history steps) ∧
      .failure id message stack ∈ responses (c.history steps) ∧
      effect = .editor (failureCall c.session c.display inflight.origin message stack)
  racing : ∀ (d : Client) (left : List (RequestId × Inflight)) (others : List Step)
    (out : Client × List Effect), d.closed = false → d.Winds left others out →
    out.2.filter Effect.inBlock =
      (left.map fun entry => Block.closing entry.1 entry.2 (.failure .connectionClosed)).flatMap
        (Block.effects d.session d.display)

/-- A client that has nothing in its table and its queue shows block behind block from then on. -/
theorem inBlocks {c : Client} (htable : c.table.entries = []) (hwaiting : c.waiting = [])
    (hopen : c.closed = false) (steps : List Step) : c.InBlocks steps := by
  have hshown := filter_of_shown (c.aboutRequests_run steps)
  have hpaired : ∀ id, Block.Alternate id none
      ((blocks (c.history steps)).filter fun block => block.id == id)
      ((c.run steps).1.table.get? id) := by
    intro id
    have halternate := c.run_alternate id steps
    rwa [Table.get?, htable] at halternate
  have hbegun : (blocks (c.history steps)).filterMap Block.begun? <+
      (c.made (attempts steps)).map tracking := by
    have horder := c.waiting_run steps
    rw [hwaiting, List.nil_append] at horder
    rw [begun_blocks]
    exact ((List.sublist_append_left _ _).trans horder).map tracking
  refine ⟨hshown, hbegun, hpaired, ?_, ?_, fun _ _ _ _ h => blocks_of_dispatched h,
    c.verdicts_run steps, responses_prefix_stream hopen steps, ?_,
    fun d left others out hstill hwinds => ?_⟩
  · intro hclosed id
    have hrest : c.closed = true → c.AtRest := by
      intro hclosed
      exact absurd (hopen.symm.trans hclosed) Bool.false_ne_true
    have halternate := hpaired id
    rwa [Table.get?, (run_atRest hrest steps hclosed).table_eq] at halternate
  · intro hids
    have hcalled := hbegun.map Prod.fst
    rw [List.map_map] at hcalled
    exact hids.sublist (hcalled.trans (c.made_ids (attempts steps)))
  · intro effect heffect hdisplays
    have hmem : effect ∈ (c.run steps).2.filter Effect.inBlock :=
      List.mem_filter.2 ⟨heffect, Effect.inBlock_of_displays hdisplays⟩
    rw [hshown] at hmem
    obtain ⟨block, hblock, hseen⟩ := List.mem_flatMap.1 hmem
    obtain ⟨id, inflight, message, stack, rfl, hcall⟩ := Block.eq_of_displays hseen hdisplays
    have hverdict : (id, .failure (.eval message stack)) ∈
        (blocks (c.history steps)).filterMap Block.verdict? :=
      List.mem_filterMap.2 ⟨_, hblock, rfl⟩
    obtain ⟨response, hresponse, hsame⟩ :=
      List.mem_filterMap.1 ((c.verdicts_run steps).subset hverdict)
    obtain rfl := Response.eq_of_verdict hsame
    exact ⟨id, inflight, message, stack, hblock, hresponse, hcall⟩
  · exact hwinds.shown hstill

/-- In every run the loop shows one block behind another, and every request that begins has one
block that ends it once the loop has ended. -/
theorem effects_come_in_blocks (connection : Connection) (config : Config) (stager : Stager)
    (scratch : Scratch) (steps : List Step) :
    (Client.new connection config stager scratch).InBlocks steps :=
  inBlocks rfl rfl rfl steps

end Client

end RemoteEval
