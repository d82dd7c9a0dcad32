import Mathlib.Data.List.Nodup
import RemoteEval.Proofs.Client.Files
import RemoteEval.Proofs.Request

/-!
What the interpreter is given. The line of a request that is accepted is read as the request, which
holds the text of the call as it is, or loads a file. The file is right in the scratch directory,
and as long as the request is tracked it holds the text without the blanks around it, since nothing
that is written there is ever written over.
-/
namespace RemoteEval

open scoped List
open Framing Text

def Body.text? : Body → Option String
  | .text content => some content
  | .staged content => some content
  | .auto content => some content
  | .selection content _ _ => some content
  | .file _ => none
  | .project _ => none

/-- Whether the text of a body stands inside the request. If the client may choose it does if it is
one line and not too long. -/
def Body.Inline (limit : Nat) : Body → Prop
  | .staged _ => False
  | .auto content => '\n' ∉ content.toList ∧ content.utf8ByteSize ≤ limit
  | .selection content _ _ => '\n' ∉ content.toList ∧ content.utf8ByteSize ≤ limit
  | _ => True

def RightIn (dir path : String) : Prop :=
  ∃ separator name, path = dir ++ separator ++ name ∧ '/' ∉ name.toList ∧
    (separator = "/" ∨ separator = "" ∧ (dir.isEmpty || dir.endsWith "/") = true)

theorem rightIn_below {dir name : String} (h : '/' ∉ name.toList) :
    RightIn dir (below dir name) := by
  have hstart : ¬ name.startsWith "/" = true := by
    intro hslash
    exact h ((String.startsWith_string_iff.1 hslash).subset List.mem_cons_self)
  unfold below
  rw [if_neg hstart]
  split
  · next hdir => exact ⟨"", name, by simp, h, .inr ⟨rfl, hdir⟩⟩
  · exact ⟨"/", name, rfl, h, .inl rfl⟩

namespace Client

theorem prefersFile_iff (c : Client) (text : String) : c.prefersFile text = true ↔
    ¬ ('\n' ∉ text.toList ∧ text.utf8ByteSize ≤ c.inlineLimit) := by
  rw [prefersFile, Bool.or_eq_true, List.contains_iff_mem, decide_eq_true_iff, not_and_or,
    not_not, Nat.not_le]

/-- A text stands inside the request or goes into a file. -/
theorem codeOrText_of_text {c : Client} {body : Body} {text : String} (h : body.text? = some text) :
    (body.Inline c.inlineLimit ∧ c.codeOrText body = .inl text) ∨
      (¬ body.Inline c.inlineLimit ∧ c.codeOrText body = .inr text) := by
  have hchoice : ('\n' ∉ text.toList ∧ text.utf8ByteSize ≤ c.inlineLimit) ∧
        c.prefersFile text = false ∨
      ¬ ('\n' ∉ text.toList ∧ text.utf8ByteSize ≤ c.inlineLimit) ∧ c.prefersFile text = true := by
    cases hprefers : c.prefersFile text with
    | true => exact .inr ⟨(c.prefersFile_iff text).1 hprefers, rfl⟩
    | false =>
      refine .inl ⟨?_, rfl⟩
      by_contra hnot
      exact Bool.false_ne_true (hprefers.symm.trans ((c.prefersFile_iff text).2 hnot))
  cases body with
  | text _ =>
    cases h
    exact .inl ⟨trivial, rfl⟩
  | staged _ =>
    cases h
    exact .inr ⟨not_false, rfl⟩
  | auto _ =>
    cases h
    rcases hchoice with ⟨hinline, hprefers⟩ | ⟨hfile, hprefers⟩
    · exact .inl ⟨hinline, by simp [codeOrText, hprefers]⟩
    · exact .inr ⟨hfile, by simp [codeOrText, hprefers]⟩
  | selection _ start stop =>
    cases h
    rcases hchoice with ⟨hinline, hprefers⟩ | ⟨hfile, hprefers⟩
    · exact .inl ⟨hinline, by simp [codeOrText, hprefers]⟩
    · exact .inr ⟨hfile, by simp [codeOrText, hprefers]⟩
  | file path => cases h
  | project path => cases h

inductive Route (c : Client) (a : Attempt) (request : Request) : Option String → Prop where
  | inline (hcode : c.codeOrText a.body = .inl request.code) : Route c a request none
  | staged (text : String) (hcode : c.codeOrText a.body = .inr text)
      (hload : request.code = loadInstruction (c.stager.path a.stem))
      (hname : RightIn c.stager.dir (c.stager.path a.stem)) :
      Route c a request (some (c.stager.path a.stem))

/-- What can be staged has a file right in the scratch directory. -/
theorem rightIn_of_stage {c : Client} {stem text file : String} {scratch : Scratch}
    (h : c.scratch.stage c.stager stem text = .ok (file, scratch)) :
    file = c.stager.path stem ∧ scratch.files = c.scratch.files ++ [(file, trimmed text)] ∧
      RightIn c.stager.dir file := by
  unfold Scratch.stage at h
  cases hfault : c.scratch.stageFault? c.stager stem with
  | some fault =>
    rw [hfault] at h
    cases h
  | none =>
    rw [hfault] at h
    cases h
    refine ⟨rfl, rfl, rightIn_below ?_⟩
    intro hslash
    have hrefusal := (Option.or_eq_none_iff.1 hfault).1
    unfold Scratch.refusal? at hrefusal
    split at hrefusal
    · cases hrefusal
    · rw [if_pos (Bool.or_eq_true_iff.2 (.inr (List.contains_iff_mem.2 hslash)))] at hrefusal
      cases hrefusal

theorem checked_route {c : Client} {a : Attempt} {request : Request} {inflight : Inflight}
    (h : c.checked a = .ok (request, inflight)) :
    (spec a).resolve = .ok request.path ∧ c.Route a request inflight.staged := by
  unfold checked prepare at h
  cases hresolves : (spec a).resolve with
  | error why =>
    rw [hresolves] at h
    cases h
  | ok path =>
    rw [hresolves] at h
    cases hcode : c.codeOrText a.body with
    | inl code =>
      rw [hcode] at h
      cases h
      exact ⟨rfl, .inline hcode⟩
    | inr text =>
      rw [hcode] at h
      cases hstage : c.scratch.stage c.stager a.stem text with
      | error why =>
        simp only [hstage] at h
        cases h
      | ok staged =>
        obtain ⟨file, scratch⟩ := staged
        obtain ⟨rfl, -, hname⟩ := rightIn_of_stage hstage
        simp only [hstage] at h
        cases h
        exact ⟨rfl, .staged text hcode rfl hname⟩

def kept (c : Client) (a : Attempt) : RequestId × Inflight :=
  (a.id, ⟨a.origin, a.callbacks, c.stagedPath? a⟩)

theorem kept_eq {c : Client} {a : Attempt} {entry : Request × Inflight}
    (h : c.checked a = .ok entry) : c.kept a = tracking entry := by
  obtain ⟨request, inflight⟩ := entry
  obtain ⟨horigin, hcallbacks⟩ := checked_of h
  rw [kept, tracking, stagedPath?_of_checked h, ← horigin, ← hcallbacks, checked_id h]

def AsText (c : Client) (a : Attempt) (text code : String) : Prop :=
  code = text ∧ c.stagedPath? a = none

def AsFile (c : Client) (a : Attempt) (code : String) : Prop :=
  ∃ literal path, code = "include(" ++ literal ++ ")" ∧ Literal.unquote literal = some path ∧
    c.stagedPath? a = some path ∧ RightIn c.stager.dir path

structure Gives (c : Client) (a : Attempt) (line : String) (request : Request) : Prop where
  one_line : lineBreak ∉ Utf8.encode line.toList
  read : Request.parse line = .ok request
  id_eq : request.id = a.id
  resolves : (spec a).resolve = .ok request.path
  as_text : ∀ text, a.body.text? = some text →
    (a.body.Inline c.inlineLimit ↔ c.AsText a text request.code)
  as_file : ∀ text, a.body.text? = some text →
    (¬ a.body.Inline c.inlineLimit ↔ c.AsFile a request.code)

theorem gives_frame {c : Client} {a : Attempt} {request : Request} {inflight : Inflight}
    (hchecked : c.checked a = .ok (request, inflight)) (hid : Request.MarkFree a.id) :
    c.Gives a request.frame request := by
  obtain ⟨hresolves, hroute⟩ := checked_route hchecked
  have hsame := checked_id hchecked
  have hblanks : ∀ c ∈ "".toList, isBlank c = true := by simp
  have hread := Request.parse_frame (r := request) (hsame.symm ▸ hid) hblanks
  have hstaged := stagedPath?_of_checked hchecked
  rw [String.append_empty] at hread
  have hform : ∀ text, a.body.text? = some text →
      (a.body.Inline c.inlineLimit ∧ c.AsText a text request.code ∧ ¬ c.AsFile a request.code) ∨
        (¬ a.body.Inline c.inlineLimit ∧ ¬ c.AsText a text request.code ∧
          c.AsFile a request.code) := by
    intro text htext
    generalize hfile : inflight.staged = file at hroute hstaged
    cases hroute with
    | inline hcode =>
      rcases codeOrText_of_text (c := c) htext with ⟨hinline, hchoice⟩ | ⟨hnot, hchoice⟩
      · rw [hcode] at hchoice
        refine .inl ⟨hinline, ⟨Sum.inl.inj hchoice, hstaged⟩, ?_⟩
        rintro ⟨literal, path, -, -, hpath, -⟩
        cases hstaged.symm.trans hpath
      · cases hcode.symm.trans hchoice
    | staged other hcode hload hname =>
      rcases codeOrText_of_text (c := c) htext with ⟨hinline, hchoice⟩ | ⟨hnot, hchoice⟩
      · cases hcode.symm.trans hchoice
      · refine .inr ⟨hnot, ?_, Literal.quote (c.stager.path a.stem), c.stager.path a.stem, hload,
          Literal.unquote_quote _, hstaged, hname⟩
        rintro ⟨-, hnone⟩
        cases hstaged.symm.trans hnone
  refine ⟨request.lineBreak_not_mem_frame, hread, hsame, hresolves, ?_, ?_⟩
  · intro text htext
    rcases hform text htext with ⟨hinline, htext, -⟩ | ⟨hnot, hother, -⟩
    · exact iff_of_true hinline htext
    · exact iff_of_false hnot hother
  · intro text htext
    rcases hform text htext with ⟨hinline, -, hother⟩ | ⟨hnot, -, hfile⟩
    · exact iff_of_false (not_not.2 hinline) hother
    · exact iff_of_true hnot hfile

/-- The loop takes the request of a call and writes its line, the call is told so, and the request
is tracked from then on. -/
structure Delivers (c : Client) (before : List Step) (a : Attempt) : Prop where
  seen : ∃ line request, c.Gives a line request ∧
    aboutRequests ((c.run before).1.step .take).2 =
      [.editor (.progress a.origin .started), .wrote (Utf8.encode line.toList ++ [lineBreak]),
        .answered a.id (.ok ())]
  tracked : ((c.run before).1.step .take).1.table.entries =
    (c.run before).1.table.entries ++ [c.kept a]

theorem delivers {c : Client} (hwaiting : c.waiting = []) {before : List Step} {s : Step}
    {id : RequestId} (hids : ∀ a ∈ attempts before, Request.MarkFree a.id)
    (hmem : .answered id (.ok ()) ∈ (c.run before).1.happens s) :
    s = .take ∧ ∃ a ∈ attempts before, a.id = id ∧ c.Delivers before a := by
  obtain ⟨rfl, request, inflight, hentry, rfl, hmoments, htable⟩ :=
    ((c.run before).1.step_change s).of_accepted hmem
  have horder := c.waiting_run before
  rw [hwaiting, List.nil_append] at horder
  obtain ⟨a, ha, hchecked⟩ := mem_made.1 (horder.subset (List.mem_append_right _ hentry))
  have hid := checked_id hchecked
  have hkept := kept_eq hchecked
  obtain ⟨horigin, -⟩ := checked_of hchecked
  refine ⟨rfl, a, ha, hid.symm, ⟨request.frame, request, gives_frame hchecked (hids a ha), ?_⟩, ?_⟩
  · rw [aboutRequests_step, hmoments, ← horigin, ← hid]
    rfl
  · rw [htable, hkept]
    rfl

/-- What is seen of a run is seen in one of its steps. -/
theorem mem_run {c : Client} {steps : List Step} {effect : Effect}
    (h : effect ∈ (c.run steps).2) :
    ∃ before s, before ++ [s] <+: steps ∧ effect ∈ ((c.run before).1.step s).2 := by
  induction steps generalizing c with
  | nil => cases h
  | cons s rest ih =>
    rw [run, andThen_snd] at h
    rcases List.mem_append.1 h with hnow | hlater
    · exact ⟨[], s, List.prefix_append [s] rest, hnow⟩
    · obtain ⟨before, t, hprefix, hseen⟩ := ih hlater
      exact ⟨s :: before, t, (List.prefix_cons_inj s).2 hprefix, hseen⟩

theorem happens_of_answered {c : Client} {s : Step} {id : RequestId} {result : Except Error Unit}
    (h : .answered id result ∈ (c.step s).2) : .answered id result ∈ c.happens s := by
  have hrun : .answered id result ∈ (c.run [s]).2 := List.mem_append_left _ h
  have hhistory := mem_history_of_answered hrun
  rw [history, history, List.append_nil] at hhistory
  exact hhistory

def fileFor? (c : Client) (a : Attempt) : Option (String × String) :=
  match c.codeOrText a.body with
  | .inl _ => none
  | .inr text => (c.stagedPath? a).map fun path => (path, trimmed text)

theorem fileFor?_congr {c d : Client} (hsetup : d.SameSetup c) (hchecked : d.checked = c.checked) :
    d.fileFor? = c.fileFor? := by
  funext a
  have hcode : d.codeOrText a.body = c.codeOrText a.body := by
    unfold codeOrText prefersFile
    rw [hsetup.inlineLimit]
  rw [fileFor?, fileFor?, hcode, stagedPath?, stagedPath?, hchecked]

theorem submit_files (c : Client) (a : Attempt) {file : String × String}
    (h : file ∈ (c.submit a).1.scratch.files) :
    file ∈ c.scratch.files ∨ c.fileFor? a = some file := by
  unfold submit at h
  cases hprepare : c.prepare a with
  | error why =>
    rw [hprepare] at h
    exact .inl h
  | ok prepared =>
    obtain ⟨request, staged, scratch⟩ := prepared
    have hpath := stagedPath?_of_checked (prepare_ok hprepare)
    rw [hprepare] at h
    simp only at h
    split at h
    · exact .inl h
    · unfold prepare at hprepare
      split at hprepare
      · cases hprepare
      · split at hprepare
        · cases hprepare
          exact .inl h
        · next text hcode =>
          split at hprepare
          · cases hprepare
          · next path made hstage =>
            obtain ⟨-, hfiles, -⟩ := rightIn_of_stage hstage
            cases hprepare
            rw [hfiles, List.mem_append, List.mem_singleton] at h
            refine h.imp_right ?_
            rintro rfl
            simp only [fileFor?, hcode, hpath, Option.map_some]

theorem close_files (c : Client) (ending : Ending) :
    (c.close ending).1.scratch.files ⊆ c.scratch.files := by
  rw [close_state]
  exact c.scratch.files_removeAll_subset c.held

theorem elim_files (c : Client) (staged : Option String) :
    (staged.elim c.scratch c.scratch.remove).files ⊆ c.scratch.files := by
  rw [← Scratch.removeAll_toList]
  exact c.scratch.files_removeAll_subset _

theorem register_files (c : Client) (request : Request) (inflight : Inflight) :
    (c.register request inflight).1.scratch.files ⊆ c.scratch.files := by
  cases c.registration request inflight with
  | duplicate text hmem hregister hmoments =>
    rw [hregister]
    exact c.elim_files inflight.staged
  | accepted table written connection hfree hentries hsend hregister hmoments =>
    rw [hregister]
    exact List.Subset.refl _
  | unwritten written fault connection hfree hsend hregister hmoments =>
    rw [hregister]
    simp only [andThen_fst, finish_fst]
    exact List.Subset.trans (close_files _ _) (c.elim_files inflight.staged)

theorem receive_files (c : Client) : c.receive.1.scratch.files ⊆ c.scratch.files := by
  unfold receive
  split
  · exact List.Subset.refl _
  · obtain ⟨receipt, connection⟩ := c.connection.receive
    cases receipt with
    | response response =>
      cases hended : endedBy { c with connection } response with
      | none =>
        obtain ⟨level, text, hdispatch⟩ := dispatch_of_none hended
        simp only [hdispatch]
        exact List.Subset.refl _
      | some ended =>
        obtain ⟨id, inflight, completion⟩ := ended
        simp only [dispatch_of_some hended, andThen_fst, finish_fst]
        exact elim_files _ _
    | ended => exact close_files _ _
    | failed fault => exact close_files _ _
    | waiting => exact List.Subset.refl _

/-- Files only come in, each for a call, and go; nothing is ever written to a file that is there. -/
theorem step_files (c : Client) (s : Step) {file : String × String}
    (h : file ∈ (c.step s).1.scratch.files) :
    file ∈ c.scratch.files ∨ ∃ a ∈ s.attempt?.toList, c.fileFor? a = some file := by
  cases s with
  | submit a =>
    exact (c.submit_files a h).imp_right fun hfile => ⟨a, List.mem_singleton_self a, hfile⟩
  | query n =>
    refine .inl ?_
    change file ∈ (c.query n).1.scratch.files at h
    unfold query at h
    split at h <;> exact h
  | take =>
    refine .inl ?_
    change file ∈ c.take.1.scratch.files at h
    unfold take at h
    split at h
    · exact h
    · next request inflight rest hqueue =>
      exact register_files { c with queue := rest } request inflight h
    · exact h
  | receive => exact .inl (c.receive_files h)
  | stop =>
    refine .inl ?_
    simp only [step] at h
    split at h
    · exact h
    · exact c.close_files .stopped h
  | arrive piece => exact .inl h
  | closeOutput => exact .inl h
  | dropRemote => exact .inl h
  | failReads fault => exact .inl h
  | failWrites after => exact .inl h
  | failFlushes fault => exact .inl h
  | erase path => exact .inl (c.scratch.files_remove_subset path h)

theorem run_files (c : Client) (steps : List Step) {file : String × String}
    (h : file ∈ (c.run steps).1.scratch.files) :
    file ∈ c.scratch.files ∨ ∃ a ∈ attempts steps, c.fileFor? a = some file := by
  induction steps generalizing c with
  | nil => exact .inl h
  | cons s rest ih =>
    rw [attempts_cons]
    rcases ih (c.step s).1 h with hbefore | ⟨a, ha, hfile⟩
    · rcases c.step_files s hbefore with hstart | ⟨a, ha, hfile⟩
      · exact .inl hstart
      · exact .inr ⟨a, List.mem_append_left _ ha, hfile⟩
    · rw [fileFor?_congr (c.step_setup s) (c.step_checked s)] at hfile
      exact .inr ⟨a, List.mem_append_right _ ha, hfile⟩

/-- The file of a call holds its text, trimmed, as long as it belongs to a request and nobody else
has deleted it. -/
theorem lookup_of_held {c : Client} {steps : List Step} (hwaiting : c.waiting = [])
    (htable : c.table.entries = []) (hnamed : Named c steps) {a : Attempt}
    (ha : a ∈ attempts steps) {path content : String} (hfile : c.fileFor? a = some (path, content))
    (hheld : path ∈ (c.run steps).1.held) (hlost : path ∉ c.lost steps) :
    (c.run steps).1.scratch.files.lookup path = some content := by
  have hpath : ∀ {b : Attempt} {found : String}, c.fileFor? b = some (path, found) →
      c.stagedPath? b = some path := by
    intro b found hb
    unfold fileFor? at hb
    split at hb
    · cases hb
    · obtain ⟨other, hother, hsame⟩ := Option.map_eq_some_iff.1 hb
      cases hsame
      exact hother
  have hhas := ((Kept.of_named hwaiting htable hnamed).present path).2 (.inl ⟨hheld, hlost⟩)
  obtain ⟨found, hlookup, hmem⟩ := Scratch.lookup_of_has hhas
  rw [hlookup]
  rcases c.run_files steps hmem with hstart | ⟨b, hb, hother⟩
  · -- A fresh name is not that of a file which is there from the start.
    have hunused := hnamed.unused path (List.mem_filterMap.2 ⟨a, ha, hpath hfile⟩)
    have hthere : c.scratch.has path = true := List.any_eq_true.2 ⟨_, hstart, beq_self_eq_true path⟩
    cases hunused.symm.trans hthere
  · obtain rfl := eq_of_nodup_filterMap hnamed.names ha (hpath hfile) hb (hpath hother)
    cases hother.symm.trans hfile
    rfl

/-- A text that is evaluated by way of a file has that file made for it, with the text in it. -/
theorem fileFor?_of_text {c : Client} {a : Attempt} {text path : String}
    (htext : a.body.text? = some text) (hpath : c.stagedPath? a = some path) :
    c.fileFor? a = some (path, trimmed text) := by
  rcases codeOrText_of_text (c := c) htext with ⟨-, hcode⟩ | ⟨-, hcode⟩
  · -- No file is made for a text that stands inside the request.
    unfold stagedPath? at hpath
    cases hchecked : c.checked a with
    | error why =>
      rw [hchecked] at hpath
      cases hpath
    | ok entry =>
      rw [hchecked] at hpath
      have hroute := (checked_route hchecked).2
      rw [show entry.2.staged = some path from hpath] at hroute
      cases hroute with
      | staged other hother hload hname => cases hcode.symm.trans hother
  · rw [fileFor?, hcode]
    simp only [hpath, Option.map_some]

/-- If no two calls have the same id, what the table holds under the id of a call is kept of that
call. -/
theorem kept_mem_entries {c : Client} {steps before : List Step} (hwaiting : c.waiting = [])
    (htable : c.table.entries = []) (hids : ((attempts steps).map Attempt.id).Nodup)
    (hbefore : before <+: steps) {a : Attempt} (ha : a ∈ attempts steps)
    (htracked : a.id ∈ (c.run before).1.table.ids) :
    c.kept a ∈ (c.run before).1.table.entries := by
  obtain ⟨after, rfl⟩ := hbefore
  obtain ⟨entry, hentry, hid⟩ := List.mem_map.1 htracked
  have hregistered := (c.tracked_run before).subset hentry
  rw [htable, List.nil_append] at hregistered
  obtain ⟨made, hmade, rfl⟩ := List.mem_map.1 hregistered
  have horder := (c.waiting_run before).subset (List.mem_append_left _ hmade)
  rw [hwaiting, List.nil_append] at horder
  obtain ⟨b, hb, hchecked⟩ := mem_made.1 horder
  have hsame : b.id = a.id := (checked_id hchecked).symm.trans hid
  obtain rfl := List.inj_on_of_nodup_map hids ((attempts_append_left before after).subset hb) ha
    hsame
  rw [kept_eq hchecked]
  exact hentry

/-- The file of a tracked request holds the text of the call, trimmed, unless someone else has
deleted it. -/
theorem lookup_of_kept {c : Client} {steps before : List Step} (hwaiting : c.waiting = [])
    (htable : c.table.entries = []) (hnamed : Named c steps) (hbefore : before <+: steps)
    {a : Attempt} (ha : a ∈ attempts steps) {text path : String}
    (htext : a.body.text? = some text) (hpath : c.stagedPath? a = some path)
    (htracked : c.kept a ∈ (c.run before).1.table.entries) (hlost : path ∉ c.lost before) :
    (c.run before).1.scratch.files.lookup path = some (trimmed text) := by
  obtain ⟨after, rfl⟩ := hbefore
  have hheld : path ∈ (c.run before).1.held := mem_held.2 (.inl ⟨_, htracked, hpath⟩)
  obtain ⟨b, hb, hsame⟩ := List.mem_filterMap.1 ((held_run hwaiting htable before).subset hheld)
  obtain rfl := eq_of_nodup_filterMap hnamed.names ha hpath ((attempts_append_left before after).subset hb) hsame
  exact lookup_of_held hwaiting htable hnamed.of_append hb (fileFor?_of_text htext hpath) hheld hlost

structure Delivery (c : Client) (steps : List Step) : Prop where
  told : ∀ before s, before ++ [s] <+: steps → ∀ id,
    .answered id (.ok ()) ∈ ((c.run before).1.step s).2 →
    s = .take ∧ ∃ a ∈ attempts before, a.id = id ∧ c.Delivers before a
  delivered : ((attempts steps).map Attempt.id).Nodup → ∀ a ∈ attempts steps,
    .answered a.id (.ok ()) ∈ (c.run steps).2 →
    ∃ before, before ++ [.take] <+: steps ∧ c.Delivers before a
  tracked : ((attempts steps).map Attempt.id).Nodup → ∀ a ∈ attempts steps,
    ∀ before, before <+: steps → a.id ∈ (c.run before).1.table.ids →
    c.kept a ∈ (c.run before).1.table.entries
  stored : Named c steps → ∀ a ∈ attempts steps, ∀ text path, a.body.text? = some text →
    c.stagedPath? a = some path → ∀ before, before <+: steps →
    c.kept a ∈ (c.run before).1.table.entries → path ∉ c.lost before →
    (c.run before).1.scratch.files.lookup path = some (trimmed text)

/-- In every run with generated ids the interpreter is given exactly the texts of the calls that are
accepted. -/
theorem interpreter_is_given_the_text (connection : Connection) (config : Config)
    (stager : Stager) (scratch : Scratch) (steps : List Step)
    (hids : ∀ a ∈ attempts steps, ∃ bits, a.id = RequestId.ofBits bits) :
    (Client.new connection config stager scratch).Delivery steps := by
  have hfree : ∀ {before : List Step}, before <+: steps →
      ∀ a ∈ attempts before, Request.MarkFree a.id := by
    rintro before ⟨after, rfl⟩ a ha
    obtain ⟨bits, hbits⟩ := hids a ((attempts_append_left before after).subset ha)
    rw [hbits]
    exact Request.markFree_ofBits bits
  have htold : ∀ before s, before ++ [s] <+: steps → ∀ id,
      .answered id (.ok ()) ∈ (((new connection config stager scratch).run before).1.step s).2 →
      s = .take ∧ ∃ a ∈ attempts before, a.id = id ∧
        (new connection config stager scratch).Delivers before a := by
    intro before s hprefix id hanswered
    exact delivers rfl (hfree ((List.prefix_append before [s]).trans hprefix))
      (happens_of_answered hanswered)
  refine ⟨htold, ?_, ?_, ?_⟩
  · intro hnodup a ha hanswered
    obtain ⟨before, s, hprefix, hseen⟩ := mem_run hanswered
    obtain ⟨rfl, b, hb, hid, hdelivers⟩ := htold before s hprefix a.id hseen
    obtain ⟨after, hsteps⟩ := (List.prefix_append before [Step.take]).trans hprefix
    have hcall : b ∈ attempts steps := by
      rw [← hsteps]
      exact (attempts_append_left before after).subset hb
    obtain rfl := List.inj_on_of_nodup_map hnodup hcall ha hid
    exact ⟨before, hprefix, hdelivers⟩
  · intro hnodup a ha before hbefore htracked
    exact kept_mem_entries rfl rfl hnodup hbefore ha htracked
  · intro hnamed a ha text path htext hpath before hbefore htracked hlost
    exact lookup_of_kept rfl rfl hnamed hbefore ha htext hpath htracked hlost

/-- Of two texts that look like the end of a request one has two lines and goes into a file, the
other stands inside its request. Both requests wait for their responses. -/
theorem interpreter_is_given_the_text_of_two_lines :
    let c := Client.new { peer := "repl" } {} {}
    let steps : List Step := [
      .submit ⟨RequestId.ofBits 1, "s", "buffer", .default, .auto " \")\n$x ", {}⟩,
      .submit ⟨RequestId.ofBits 2, "t", "buffer", .symbol "A", .auto "\", code = \"$x\")", {}⟩,
      .take, .take]
    (∀ a ∈ attempts steps, ∃ bits, a.id = RequestId.ofBits bits) ∧ Named c steps ∧
      (c.run steps).1.table.ids = ["00000001", "00000002"] ∧
      (c.run steps).1.scratch.files.map Prod.snd = ["\")\n$x"] ∧ c.Delivery steps := by
  intro c steps
  have hids : ∀ a ∈ attempts steps, ∃ bits, a.id = RequestId.ofBits bits := by
    rintro a (_ | ⟨_, _ | ⟨_, ⟨⟩⟩⟩)
    · exact ⟨1, rfl⟩
    · exact ⟨2, rfl⟩
  exact ⟨hids, ⟨by decide +kernel, fun _ _ => rfl⟩, by decide +kernel, by decide +kernel,
    interpreter_is_given_the_text { peer := "repl" } {} {} {} steps hids⟩

end Client

end RemoteEval
