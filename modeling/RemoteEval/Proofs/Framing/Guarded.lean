import RemoteEval.Proofs.Framing.Bound
import RemoteEval.Proofs.Framing.Ending

/-!
Calls that watch where they cut. A guarded call looks for the places at which it cuts the buffer by
counting, and it breaks down, without any answer, where a place lies outside of the buffer or a
parenthesis closes a list that is not open. In every state that a decoder comes to, the guards have
nothing to do: the saved scan stands inside of the buffer and inside of a list. So every call
answers, uses up bytes if it answers with a response, and leaves little behind if it does not.
-/
namespace RemoteEval.Framing

def cutAt? (buffer : List UInt8) (place : Nat) : Option (List UInt8 × List UInt8) :=
  if place ≤ buffer.length then some (buffer.take place, buffer.drop place) else none

theorem cutAt?_of_le {buffer : List UInt8} {place : Nat} (h : place ≤ buffer.length) :
    cutAt? buffer place = some (buffer.take place, buffer.drop place) := if_pos h

namespace Scan

/-- Pass one byte, but no parenthesis that closes a list which is not open. -/
def guardedStep (s : Scan) (b : UInt8) : Option (Scan ⊕ Cut) :=
  if b = closeParen ∧ s.inString = false ∧ s.depth = 0 then none else some (s.step b)

def guardedPass (s : Scan) : List UInt8 → Option (Scan ⊕ Cut)
  | [] => some (.inl s)
  | b :: rest =>
    match s.guardedStep b with
    | none => none
    | some (.inl t) => t.guardedPass rest
    | some (.inr cut) => some (.inr cut)

def guardedResume (s : Scan) (buffer : List UInt8) : Option (Scan ⊕ Cut) :=
  (cutAt? buffer s.pos).bind fun cut => s.guardedPass cut.2

theorem guardedStep_of_open {s : Scan} (hopen : 0 < s.depth) (b : UInt8) :
    s.guardedStep b = some (s.step b) := by
  apply if_neg
  rintro ⟨-, -, hnone⟩
  omega

/-- A list stays open until the form ends. -/
theorem depth_pos_of_step {s t : Scan} {b : UInt8} (hopen : 0 < s.depth) (h : s.step b = .inl t) :
    0 < t.depth := by
  unfold step at h
  repeat' split at h
  all_goals
    cases h
  all_goals
    simp only
    omega

theorem guardedPass_of_open {s : Scan} (hopen : 0 < s.depth) (bytes : List UInt8) :
    s.guardedPass bytes = some (s.pass bytes) := by
  induction bytes generalizing s with
  | nil => rfl
  | cons b rest ih =>
    rw [guardedPass, pass, guardedStep_of_open hopen]
    cases hstep : s.step b with
    | inl t => exact ih (depth_pos_of_step hopen hstep)
    | inr cut => rfl

theorem depth_pos_of_pass {s t : Scan} {bytes : List UInt8} (hopen : 0 < s.depth)
    (h : s.pass bytes = .inl t) : 0 < t.depth := by
  induction bytes generalizing s with
  | nil =>
    cases h
    exact hopen
  | cons b rest ih =>
    rw [pass] at h
    split at h
    · next u hstep => exact ih (depth_pos_of_step hopen hstep) h
    · cases h

theorem guardedPass_of_start {bytes : List UInt8} (hstart : bytes.head? = some openParen) :
    guardedPass {} bytes = some (pass {} bytes) := by
  obtain ⟨rest, rfl⟩ := List.head?_eq_some_iff.1 hstart
  exact guardedPass_of_open (s := { pos := 1, depth := 1 }) Nat.one_pos rest

end Scan

namespace Decoder

def guardedLimit (d : Decoder) : Option (Option Response × Decoder) :=
  if d.bound < d.buffer.length then
    (cutAt? d.buffer (min previewSize d.buffer.length)).map fun cut =>
      (some (.ofStray cut.1 (.tooLong d.bound)),
        { d with buffer := [], scan := {}, discarding := true })
  else some (none, d)

def guardedForm (d : Decoder) : Option (Option Response × Decoder) :=
  match d.scan.guardedResume d.buffer with
  | none => none
  | some (.inl scan) => { d with scan }.guardedLimit
  | some (.inr (.closed size)) => (cutAt? d.buffer size).map fun cut =>
    (some (.ofFrame cut.1), { d with buffer := cut.2, scan := {} })
  | some (.inr (.broken size)) => (cutAt? d.buffer size).map fun cut =>
    (some (.ofStray cut.1 .lineEnded), { d with buffer := cut.2, scan := {} })

def guardedStray (d : Decoder) : Option (Option Response × Decoder) :=
  match d.buffer.findIdx? endsStray with
  | none => d.guardedLimit
  | some place => (cutAt? d.buffer place).map fun cut =>
    (some (.ofStray cut.1 .strayText), { d with buffer := cut.2 })

def guardedKept (d : Decoder) : Option (Option Response × Decoder) :=
  if d.scan.isIdle then
    (cutAt? d.buffer (d.buffer.takeWhile isBlankByte).length).bind fun cut =>
      match cut.2.head? with
      | none => some (none, { d with buffer := cut.2 })
      | some b =>
        if b = openParen then { d with buffer := cut.2 }.guardedForm
        else { d with buffer := cut.2 }.guardedStray
  else d.guardedForm

def guardedNext (d : Decoder) : Option (Option Response × Decoder) :=
  if d.discarding then
    match d.buffer.findIdx? (· == lineBreak) with
    | none => some (none, { d with buffer := [] })
    | some place => (cutAt? d.buffer (place + 1)).bind fun cut =>
      { d with buffer := cut.2, discarding := false }.guardedKept
  else d.guardedKept

def guardedAtEnd (d : Decoder) : Option (Option Response × Decoder) :=
  d.guardedNext.map fun
    | (some response, d) => (some response, d)
    | (none, d) =>
      if d.buffer.isEmpty then (none, d)
      else (some (.ofStray d.buffer .streamEnded), { d with buffer := [], scan := {} })

/-- What one use gives, and the decoder after it, unless it breaks down. -/
def guarded (d : Decoder) : Call → Option (Option Response × Decoder)
  | .feed bytes => some (none, d.feed bytes)
  | .next => d.guardedNext
  | .nextAtEnd => d.guardedAtEnd

/-- A saved scan that is not idle stands inside of a list. -/
theorem Synced.depth_pos {d : Decoder} (h : d.Synced) (hbusy : ¬ d.scan.isIdle = true) :
    0 < d.scan.depth := by
  cases h with
  | idle hscan =>
    rw [hscan] at hbusy
    exact absurd rfl hbusy
  | inside hkept hstart hpass =>
    have hpos : d.scan.pos ≠ 0 := by simpa [Scan.isIdle] using hbusy
    obtain ⟨rest, hbuffer⟩ := List.head?_eq_some_iff.1 hstart
    obtain ⟨n, hn⟩ := Nat.exists_eq_succ_of_ne_zero hpos
    rw [hbuffer, hn, List.take_succ_cons] at hpass
    exact Scan.depth_pos_of_pass (s := { pos := 1, depth := 1 }) Nat.one_pos hpass

theorem Synced.guardedResume_eq {d : Decoder} (h : d.Synced)
    (hstart : d.buffer.head? = some openParen) :
    d.scan.guardedResume d.buffer = some (d.scan.resume d.buffer) := by
  rw [Scan.guardedResume, cutAt?_of_le h.pos_le, Option.bind_some]
  by_cases hidle : d.scan.isIdle = true
  · rw [scan_of_isIdle h hidle]
    exact Scan.guardedPass_of_start hstart
  · exact Scan.guardedPass_of_open (h.depth_pos hidle) _

theorem guardedLimit_eq (d : Decoder) : d.guardedLimit = some d.limit := by
  unfold guardedLimit limit
  split
  · rw [cutAt?_of_le (Nat.min_le_right _ _), ← List.take_eq_take_min, Option.map_some]
  · rfl

theorem Synced.guardedForm_eq {d : Decoder} (h : d.Synced)
    (hstart : d.buffer.head? = some openParen) : d.guardedForm = some d.nextForm := by
  unfold guardedForm Decoder.nextForm
  rw [h.guardedResume_eq hstart]
  cases hresume : d.scan.resume d.buffer with
  | inl scan => exact guardedLimit_eq _
  | inr cut =>
    rw [h.resume_eq] at hresume
    have hsize := Scan.pass_cut hresume
    simp only [Nat.zero_add] at hsize
    cases cut with
    | closed size => simp only [cutAt?_of_le hsize.2, Option.map_some, drop]
    | broken size => simp only [cutAt?_of_le hsize.2.le, Option.map_some, drop]

theorem guardedStray_eq (d : Decoder) : d.guardedStray = some d.nextStray := by
  unfold guardedStray nextStray
  cases hfind : d.buffer.findIdx? endsStray with
  | none =>
    have hrest : (d.buffer.dropWhile fun b => !endsStray b) = [] := by
      rw [List.dropWhile_eq_nil_iff]
      intro b hb
      simp [List.findIdx?_eq_none_iff.1 hfind b hb]
    simp only [hrest]
    exact d.guardedLimit_eq
  | some place =>
    obtain ⟨hplace, hindex⟩ := List.findIdx?_eq_some_iff_findIdx_eq.1 hfind
    have htake : (d.buffer.takeWhile fun b => !endsStray b) = d.buffer.take place := by
      simp [List.takeWhile_eq_take_findIdx_not, hindex]
    have hdrop : (d.buffer.dropWhile fun b => !endsStray b) = d.buffer.drop place := by
      simp [List.dropWhile_eq_drop_findIdx_not, hindex]
    have hrest := List.drop_eq_getElem_cons hplace
    simp only [cutAt?_of_le hplace.le, Option.map_some, htake, hdrop, hrest]

theorem Synced.guardedKept_eq {d : Decoder} (h : d.Synced) : d.guardedKept = some d.nextKept := by
  unfold guardedKept Decoder.nextKept
  by_cases hidle : d.scan.isIdle = true
  · have hscan := scan_of_isIdle h hidle
    have hblanks : (d.buffer.takeWhile isBlankByte).length ≤ d.buffer.length :=
      (List.takeWhile_prefix isBlankByte).length_le
    have hdrop : (d.buffer.takeWhile isBlankByte ++ d.buffer.dropWhile isBlankByte).drop
        (d.buffer.takeWhile isBlankByte).length = d.buffer.dropWhile isBlankByte := List.drop_left
    rw [List.takeWhile_append_dropWhile] at hdrop
    rw [if_pos hidle, if_pos hidle, cutAt?_of_le hblanks, Option.bind_some, hdrop]
    cases hrest : d.buffer.dropWhile isBlankByte with
    | nil => rfl
    | cons b rest =>
      by_cases hopen : b = openParen
      · simp only [List.head?_cons, if_pos hopen]
        exact Synced.guardedForm_eq (.idle hscan) (by simp [hopen])
      · simp only [List.head?_cons, if_neg hopen]
        exact guardedStray_eq _
  · rw [if_neg hidle, if_neg hidle]
    cases h with
    | idle hscan =>
      rw [hscan] at hidle
      exact absurd rfl hidle
    | inside hkept hstart hpass => exact Synced.guardedForm_eq (.inside hkept hstart hpass) hstart

theorem Synced.guardedNext_eq {d : Decoder} (h : d.Synced) : d.guardedNext = some d.next := by
  cases hdiscarding : d.discarding with
  | false =>
    rw [next_of_kept hdiscarding, guardedNext, if_neg (by simp [hdiscarding])]
    exact h.guardedKept_eq
  | true =>
    unfold guardedNext
    rw [if_pos hdiscarding]
    cases hfind : d.buffer.findIdx? (· == lineBreak) with
    | none =>
      have hrest : (d.buffer.dropWhile fun b => b != lineBreak) = [] := by
        rw [List.dropWhile_eq_nil_iff]
        intro b hb
        simpa using List.findIdx?_eq_none_iff.1 hfind b hb
      rw [next_of_line_open hdiscarding hrest]
    | some place =>
      obtain ⟨hplace, hindex⟩ := List.findIdx?_eq_some_iff_findIdx_eq.1 hfind
      have hrest : (d.buffer.dropWhile fun b => b != lineBreak) =
          d.buffer[place] :: d.buffer.drop (place + 1) := by
        rw [List.dropWhile_eq_drop_findIdx_not]
        simp only [bne, Bool.not_not, hindex, List.drop_eq_getElem_cons hplace]
      rw [next_of_line_ended hdiscarding hrest]
      simp only [cutAt?_of_le (Nat.succ_le_of_lt hplace), Option.bind_some]
      exact Synced.guardedKept_eq (.idle (h.scan_of_discarding hdiscarding))

theorem Synced.guardedAtEnd_eq {d : Decoder} (h : d.Synced) :
    d.guardedAtEnd = some d.nextAtEnd := by
  calc d.guardedAtEnd
    _ = (some d.next).map _ := congrArg (Option.map _) h.guardedNext_eq
    _ = some d.nextAtEnd := rfl

/-- No use of a decoder breaks down. -/
theorem Synced.guarded_eq {d : Decoder} (h : d.Synced) (call : Call) :
    d.guarded call = some (d.perform call) := by
  cases call with
  | feed bytes => rfl
  | next => exact h.guardedNext_eq
  | nextAtEnd => exact h.guardedAtEnd_eq

/-- Asking again and again, until there is no response, gives these responses and ends with the
second decoder. -/
inductive RunsDry (ask : Decoder → Option Response × Decoder) :
    Decoder → List Response → Decoder → Prop where
  | done {d e : Decoder} (h : ask d = (none, e)) : RunsDry ask d [] e
  | more {d e f : Decoder} {response : Response} {responses : List Response}
      (h : ask d = (some response, e)) (hrest : RunsDry ask e responses f) :
      RunsDry ask d (response :: responses) f

/-- Whoever uses up bytes with every response runs dry, and has no more responses than bytes. -/
theorem exists_runsDry {ask : Decoder → Option Response × Decoder}
    (hshorter : ∀ {d e r}, ask d = (some r, e) → e.buffer.length < d.buffer.length) (d : Decoder) :
    ∃ responses e, RunsDry ask d responses e ∧ responses.length ≤ d.buffer.length := by
  induction hsize : d.buffer.length using Nat.strong_induction_on generalizing d with
  | h size ih =>
    cases hask : ask d with
    | mk response e =>
      cases response with
      | none => exact ⟨[], e, .done hask, Nat.zero_le _⟩
      | some r =>
        have hlt := hshorter hask
        obtain ⟨responses, f, hrest, hlength⟩ := ih e.buffer.length (hsize ▸ hlt) e rfl
        refine ⟨r :: responses, f, .more hask hrest, ?_⟩
        rw [List.length_cons]
        omega

theorem RunsDry.drain_eq {d e : Decoder} {responses : List Response}
    (h : RunsDry Decoder.next d responses e) : d.drain = (responses, e) := by
  induction h with
  | done h => exact drain_of_none h
  | more h hrest ih => rw [drain_of_some h, ih]

theorem RunsDry.drainAtEnd_eq {d e : Decoder} {responses : List Response}
    (h : RunsDry Decoder.nextAtEnd d responses e) : d.drainAtEnd = (responses, e) := by
  induction h with
  | done h => exact drainAtEnd_of_none h
  | more h hrest ih => rw [drainAtEnd_of_some h, ih]

/-- Bytes among which no response is found hold no line break. -/
theorem lineBreak_not_mem_nextKept {d e : Decoder} (hscan : d.scan = {})
    (h : d.nextKept = (none, e)) : lineBreak ∉ e.buffer := by
  unfold nextKept at h
  rw [if_pos (by rw [hscan]; rfl)] at h
  split at h
  · cases h
    exact List.not_mem_nil
  · split at h
    · obtain ⟨scan, hpass, -, rfl⟩ := nextForm_none h
      simp only [hscan] at hpass
      exact Scan.lineBreak_not_mem hpass
    · obtain ⟨hstray, -, rfl⟩ := nextStray_none h
      exact lineBreak_not_mem_of_stray hstray

theorem Synced.lineBreak_not_mem_next {d e : Decoder} (h : d.Synced) (hnext : d.next = (none, e)) :
    lineBreak ∉ e.buffer := by
  -- With a saved scan part of the buffer is not looked at again, so look at it from its start.
  rw [← next_forget h] at hnext
  cases hdiscarding : d.discarding with
  | false =>
    rw [next_of_kept (d := d.forget) hdiscarding] at hnext
    exact lineBreak_not_mem_nextKept (d := d.forget) rfl hnext
  | true =>
    cases hrest : d.buffer.dropWhile fun b => b != lineBreak with
    | nil =>
      rw [next_of_line_open (d := d.forget) hdiscarding hrest] at hnext
      cases hnext
      exact List.not_mem_nil
    | cons b rest =>
      rw [next_of_line_ended (d := d.forget) hdiscarding hrest] at hnext
      exact lineBreak_not_mem_nextKept
        (d := { d.forget with buffer := rest, discarding := false }) rfl hnext

theorem buffer_of_nextAtEnd_none {d e : Decoder} (h : d.nextAtEnd = (none, e)) :
    e.buffer = [] := by
  unfold nextAtEnd at h
  split at h
  · cases h
  · split at h
    · next hempty =>
      cases h
      exact List.isEmpty_iff.1 hempty
    · cases h

structure Safe (bound : Nat) (d : Decoder) : Prop where
  pos_le : d.scan.pos ≤ d.buffer.length
  /-- Whatever use is made of it next, no cut falls outside of the buffer, every parenthesis that is
  counted as closing closes an open list, and there is an answer. -/
  answers : ∀ call, d.guarded call = some (d.perform call)
  shorter : ∀ call response e, d.perform call = (some response, e) →
    e.buffer.length < d.buffer.length
  dry : RunsDry Decoder.next d d.drain.1 d.drain.2 ∧ d.drain.1.length ≤ d.buffer.length
  dry_at_end : RunsDry Decoder.nextAtEnd d d.drainAtEnd.1 d.drainAtEnd.2 ∧
    d.drainAtEnd.1.length ≤ d.buffer.length
  kept : ∀ e, d.next = (none, e) → e.buffer.length ≤ bound ∧ lineBreak ∉ e.buffer
  kept_at_end : ∀ e, d.nextAtEnd = (none, e) → e.buffer = []

theorem Synced.safe {d : Decoder} (h : d.Synced) : d.Safe d.bound where
  pos_le := h.pos_le
  answers := h.guarded_eq
  shorter := by
    intro call response e hcall
    cases call with
    | feed bytes => cases hcall
    | next => exact next_length_lt hcall
    | nextAtEnd => exact nextAtEnd_length_lt hcall
  dry := by
    obtain ⟨responses, e, hdry, hlength⟩ := exists_runsDry next_length_lt d
    rw [hdry.drain_eq]
    exact ⟨hdry, hlength⟩
  dry_at_end := by
    obtain ⟨responses, e, hdry, hlength⟩ := exists_runsDry nextAtEnd_length_lt d
    rw [hdry.drainAtEnd_eq]
    exact ⟨hdry, hlength⟩
  kept e hnext := ⟨next_none_length hnext, h.lineBreak_not_mem_next hnext⟩
  kept_at_end e hnext := buffer_of_nextAtEnd_none hnext

/-- Whatever bytes come in, however cut, and whatever is asked in between, a decoder is safe to use
afterwards, under every bound. -/
theorem every_use_is_safe (bound : Nat) (calls : List Call) :
    (performAll { bound } calls).Safe bound := by
  have hsafe := ((synced_fresh bound).performAll calls).safe
  rwa [performAll_bound] at hsafe

end Decoder

end RemoteEval.Framing
