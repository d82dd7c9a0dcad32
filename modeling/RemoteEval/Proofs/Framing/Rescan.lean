import RemoteEval.Framing.Decoder

/-!
What the saved scan is worth. Between any two calls it stands where a scan of the buffered bytes
from their start would stand, so a decoder that forgets it before every call gives the same
responses and keeps the same bytes. Facts about a call may therefore be shown for an idle scan.
-/
namespace RemoteEval.Framing

theorem Scan.pos_of_pass_take {s : Scan} {buffer : List UInt8}
    (h : Scan.pass {} (buffer.take s.pos) = .inl s) : s.pos ≤ buffer.length := by
  have hpos := Scan.pass_pos h
  simp only [List.length_take] at hpos
  omega

/-- A scan that has passed the start of a buffer ends where one of the whole buffer does. -/
theorem Scan.resume_of_pass_take {s : Scan} {buffer : List UInt8}
    (h : Scan.pass {} (buffer.take s.pos) = .inl s) :
    s.resume buffer = Scan.pass {} buffer := by
  have happend := Scan.pass_append {} (buffer.take s.pos) (buffer.drop s.pos)
  rw [List.take_append_drop, h] at happend
  exact happend.symm

theorem Scan.resume_pos {s t : Scan} {buffer : List UInt8} (hpos : s.pos ≤ buffer.length)
    (h : s.resume buffer = .inl t) : t.pos = buffer.length := by
  have hcount := Scan.pass_pos h
  simp only [List.length_drop] at hcount
  omega

namespace Decoder

def forget (d : Decoder) : Decoder := { d with scan := {} }

/-- The saved scan agrees with the buffer: it is idle, or the buffer starts with an event and the
scan has passed some of its bytes. -/
inductive Synced (d : Decoder) : Prop where
  | idle (hscan : d.scan = {})
  | inside (hkept : d.discarding = false) (hstart : d.buffer.head? = some openParen)
      (hpass : Scan.pass {} (d.buffer.take d.scan.pos) = .inl d.scan)

theorem Synced.pos_le {d : Decoder} (h : d.Synced) : d.scan.pos ≤ d.buffer.length := by
  cases h with
  | idle hscan => simp [hscan]
  | inside hkept hstart hpass => exact Scan.pos_of_pass_take hpass

theorem Synced.resume_eq {d : Decoder} (h : d.Synced) :
    d.scan.resume d.buffer = Scan.pass {} d.buffer := by
  cases h with
  | idle hscan => simp [hscan, Scan.resume]
  | inside hkept hstart hpass => exact Scan.resume_of_pass_take hpass

theorem synced_fresh (bound : Nat) : Synced { bound } := .idle rfl

theorem Synced.feed {d : Decoder} (h : d.Synced) (bytes : List UInt8) : (d.feed bytes).Synced := by
  cases h with
  | idle hscan => exact .idle hscan
  | inside hkept hstart hpass =>
    refine .inside hkept ?_ ?_
    · cases hbuffer : d.buffer with
      | nil => simp [hbuffer] at hstart
      | cons b rest => simpa [Decoder.feed, hbuffer] using hstart
    · change Scan.pass {} ((d.buffer ++ bytes).take d.scan.pos) = .inl d.scan
      rw [List.take_append_of_le_length (Scan.pos_of_pass_take hpass)]
      exact hpass

theorem Synced.limit {d : Decoder} (h : d.Synced) : d.limit.2.Synced := by
  unfold Decoder.limit
  split
  · exact .idle rfl
  · exact h

/-- Looking on in a form leaves a scan that has passed the whole buffer, or none. -/
theorem Synced.nextForm {d : Decoder} (h : d.Synced) (hkept : d.discarding = false)
    (hstart : d.buffer.head? = some openParen) : d.nextForm.2.Synced := by
  unfold Decoder.nextForm
  split
  · exact .idle rfl
  · exact .idle rfl
  · next scan hscan =>
    have hpos : scan.pos = d.buffer.length := Scan.resume_pos h.pos_le hscan
    rw [h.resume_eq] at hscan
    apply Synced.limit
    refine .inside hkept hstart ?_
    simpa only [hpos, List.take_length] using hscan

theorem nextStray_scan {d : Decoder} (hscan : d.scan = {}) : d.nextStray.2.scan = {} := by
  unfold nextStray
  split
  · unfold Decoder.limit
    split
    · rfl
    · exact hscan
  · exact hscan

theorem isBlankByte_openParen : isBlankByte openParen = false := rfl

/-- A buffer that starts with an event starts with no blank. -/
theorem dropWhile_blank_of_start {buffer : List UInt8} (h : buffer.head? = some openParen) :
    ∃ rest, buffer = openParen :: rest ∧ buffer.dropWhile isBlankByte = openParen :: rest := by
  cases buffer with
  | nil => simp at h
  | cons b rest =>
    obtain rfl : b = openParen := by simpa using h
    exact ⟨rest, rfl, by simp [isBlankByte_openParen]⟩

theorem scan_of_isIdle {d : Decoder} (h : d.Synced) (hidle : d.scan.isIdle = true) :
    d.scan = {} := by
  cases h with
  | idle hscan => exact hscan
  | inside hkept hstart hpass =>
    have hpos : d.scan.pos = 0 := by simpa [Scan.isIdle] using hidle
    simpa [hpos, Scan.pass, eq_comm] using hpass

theorem Synced.nextKept {d : Decoder} (h : d.Synced) (hkept : d.discarding = false) :
    d.nextKept.2.Synced := by
  unfold Decoder.nextKept
  split
  · next hidle =>
    have hscan := scan_of_isIdle h hidle
    split
    · exact .idle hscan
    · next b rest hrest =>
      split
      · next hopen =>
        exact Synced.nextForm (.idle hscan) hkept (by simp [hopen])
      · exact .idle (nextStray_scan hscan)
  · next hidle =>
    cases h with
    | idle hscan => simp [hscan, Scan.isIdle] at hidle
    | inside hkept hstart hpass => exact Synced.nextForm (.inside hkept hstart hpass) hkept hstart

theorem Synced.scan_of_discarding {d : Decoder} (h : d.Synced) (hdiscarding : d.discarding = true) :
    d.scan = {} := by
  cases h with
  | idle hscan => exact hscan
  | inside hkept hstart hpass => simp [hkept] at hdiscarding

/-- Every call leaves a scan that agrees with the buffer. -/
theorem Synced.next {d : Decoder} (h : d.Synced) : d.next.2.Synced := by
  unfold Decoder.next
  split
  · next hdiscarding =>
    have hscan := h.scan_of_discarding hdiscarding
    split
    · exact .idle hscan
    · exact Synced.nextKept (.idle hscan) rfl
  · next hdiscarding => exact h.nextKept (by simpa using hdiscarding)

theorem Synced.nextAtEnd {d : Decoder} (h : d.Synced) : d.nextAtEnd.2.Synced := by
  have hnext := h.next
  unfold Decoder.nextAtEnd
  split
  · next hsome => rwa [hsome] at hnext
  · next hnone =>
    rw [hnone] at hnext
    split
    · exact hnext
    · exact .idle rfl

theorem nextForm_forget {d : Decoder} (h : d.Synced) : d.forget.nextForm = d.nextForm := by
  have hresume : d.forget.scan.resume d.forget.buffer = d.scan.resume d.buffer := by
    rw [h.resume_eq]
    rfl
  unfold nextForm
  rw [hresume]
  rfl

theorem nextKept_forget {d : Decoder} (h : d.Synced) : d.forget.nextKept = d.nextKept := by
  cases h with
  | idle hscan =>
    have hsame : d.forget = d := by simp [forget, ← hscan]
    rw [hsame]
  | inside hkept hstart hpass =>
    by_cases hidle : d.scan.isIdle = true
    · have hscan := scan_of_isIdle (.inside hkept hstart hpass) hidle
      have hsame : d.forget = d := by simp [forget, ← hscan]
      rw [hsame]
    · obtain ⟨rest, hbuffer, hdrop⟩ := dropWhile_blank_of_start hstart
      have hfresh : d.forget.nextKept = d.forget.nextForm := by
        have hforgetDrop : d.forget.buffer.dropWhile isBlankByte = openParen :: rest := hdrop
        have hforgetBuffer : { d.forget with buffer := openParen :: rest } = d.forget := by
          simp [forget, hbuffer]
        unfold nextKept
        simp only [hforgetDrop, hforgetBuffer, if_true]
        rfl
      rw [hfresh, nextForm_forget (.inside hkept hstart hpass)]
      unfold nextKept
      rw [if_neg hidle]

/-- A call that starts with no memory of the buffered bytes does the same. -/
theorem next_forget {d : Decoder} (h : d.Synced) : d.forget.next = d.next := by
  by_cases hdiscarding : d.discarding = true
  · have hscan := h.scan_of_discarding hdiscarding
    have hsame : d.forget = d := by simp [forget, ← hscan]
    rw [hsame]
  · unfold next
    rw [if_neg hdiscarding, if_neg (show ¬ d.forget.discarding = true from hdiscarding)]
    exact nextKept_forget h

theorem nextAtEnd_forget {d : Decoder} (h : d.Synced) : d.forget.nextAtEnd = d.nextAtEnd := by
  unfold nextAtEnd
  rw [next_forget h]

inductive Call where
  | feed (bytes : List UInt8)
  | next
  | nextAtEnd

def perform (d : Decoder) : Call → Option Response × Decoder
  | .feed bytes => (none, d.feed bytes)
  | .next => d.next
  | .nextAtEnd => d.nextAtEnd

/-- A decoder without memory: the buffer is looked at from its start at every call. -/
def performRescanning (d : Decoder) (call : Call) : Option Response × Decoder :=
  d.forget.perform call

def answers (use : Decoder → Call → Option Response × Decoder) (d : Decoder) :
    List Call → List (Option Response × List UInt8)
  | [] => []
  | call :: calls =>
    ((use d call).1, (use d call).2.buffer) :: answers use (use d call).2 calls

theorem Synced.perform {d : Decoder} (h : d.Synced) (call : Call) : (d.perform call).2.Synced := by
  cases call with
  | feed bytes => exact h.feed bytes
  | next => exact h.next
  | nextAtEnd => exact h.nextAtEnd

/-- One use of a decoder without memory gives the same response and the same decoder, but for
what that forgets before its next use. -/
theorem performRescanning_eq {d : Decoder} (h : d.Synced) (call : Call) :
    (d.performRescanning call).1 = (d.perform call).1 ∧
      (d.performRescanning call).2.buffer = (d.perform call).2.buffer ∧
      (d.performRescanning call).2.forget = (d.perform call).2.forget := by
  cases call with
  | feed bytes => exact ⟨rfl, rfl, rfl⟩
  | next => simp only [performRescanning, Decoder.perform, next_forget h, and_self]
  | nextAtEnd => simp only [performRescanning, Decoder.perform, nextAtEnd_forget h, and_self]

theorem answers_rescanning_congr {d e : Decoder} (h : d.forget = e.forget) (calls : List Call) :
    answers performRescanning d calls = answers performRescanning e calls := by
  cases calls with
  | nil => rfl
  | cons call calls => simp only [answers, performRescanning, h]

theorem answers_rescanning {d : Decoder} (h : d.Synced) (calls : List Call) :
    answers performRescanning d calls = answers perform d calls := by
  induction calls generalizing d with
  | nil => rfl
  | cons call calls ih =>
    obtain ⟨hresponse, hbuffer, hforget⟩ := performRescanning_eq h call
    simp only [answers]
    rw [hresponse, hbuffer, answers_rescanning_congr hforget, ih (h.perform call)]

/-- Whatever bytes come in, however cut, and whatever is asked in between, the saved scan saves
work only: every call gives what a decoder gives that looks at the buffer from its start. -/
theorem saved_scan_changes_nothing (bound : Nat) (calls : List Call) :
    answers perform { bound } calls = answers performRescanning { bound } calls :=
  (answers_rescanning (synced_fresh bound) calls).symm

end Decoder

end RemoteEval.Framing
