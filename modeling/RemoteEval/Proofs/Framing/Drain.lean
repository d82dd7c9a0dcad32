import Mathlib.Data.List.DropRight
import Mathlib.Data.Nat.Init
import RemoteEval.Framing.Decoder

/-!
Taking all responses out of a buffer. A call that finds none finds none when it is made again,
so draining comes to rest; calls keep the bound and use up bytes from the start of the buffer.
-/
namespace RemoteEval.Framing.Decoder

theorem next_of_kept {d : Decoder} (h : d.discarding = false) : d.next = d.nextKept := by
  unfold next
  rw [if_neg (by simp [h])]

theorem next_of_line_open {d : Decoder} (h : d.discarding = true)
    (hrest : (d.buffer.dropWhile fun b => b != lineBreak) = []) :
    d.next = (none, { d with buffer := [] }) := by
  unfold next
  rw [if_pos h]
  simp only [hrest]

theorem next_of_line_ended {d : Decoder} {b : UInt8} {rest : List UInt8}
    (h : d.discarding = true)
    (hrest : (d.buffer.dropWhile fun b => b != lineBreak) = b :: rest) :
    d.next = { d with buffer := rest, discarding := false }.nextKept := by
  unfold next
  rw [if_pos h]
  simp only [hrest]

theorem drain_of_none {d e : Decoder} (h : d.next = (none, e)) : d.drain = ([], e) := by
  rw [drain]
  split
  · next hnext => cases h.symm.trans hnext; rfl
  · next hnext => cases h.symm.trans hnext

theorem drain_of_some {d e : Decoder} {r : Response} (h : d.next = (some r, e)) :
    d.drain = (r :: e.drain.1, e.drain.2) := by
  rw [drain]
  split
  · next hnext => cases h.symm.trans hnext
  · next hnext => cases h.symm.trans hnext; rfl

theorem drain_congr {d e : Decoder} (h : d.next = e.next) : d.drain = e.drain := by
  cases hnext : e.next with
  | mk response f =>
    rw [hnext] at h
    cases response with
    | none => rw [drain_of_none h, drain_of_none hnext]
    | some r => rw [drain_of_some h, drain_of_some hnext]

/-- An open form within the bound gives nothing yet; the scan has gone over all of it. -/
theorem nextForm_none {d e : Decoder} (h : d.nextForm = (none, e)) :
    ∃ scan, d.scan.resume d.buffer = .inl scan ∧ d.buffer.length ≤ d.bound ∧
      e = { d with scan } := by
  unfold nextForm at h
  split at h
  · cases h
  · cases h
  · next scan hscan =>
    refine ⟨scan, hscan, ?_, limit_none h⟩
    unfold limit at h
    split at h
    · cases h
    · next hroom => exact Nat.le_of_not_lt hroom

theorem nextStray_none {d e : Decoder} (h : d.nextStray = (none, e)) :
    (d.buffer.dropWhile fun b => !endsStray b) = [] ∧ d.buffer.length ≤ d.bound ∧ e = d := by
  unfold nextStray at h
  split at h
  · next hrest =>
    refine ⟨hrest, ?_, limit_none h⟩
    unfold limit at h
    split at h
    · cases h
    · next hroom => exact Nat.le_of_not_lt hroom
  · cases h

theorem limit_of_le {d : Decoder} (h : d.buffer.length ≤ d.bound) : d.limit = (none, d) := by
  unfold limit
  rw [if_neg (Nat.not_lt.2 h)]

theorem nextForm_again {d e : Decoder} (h : d.nextForm = (none, e)) :
    e.nextForm = (none, e) := by
  obtain ⟨scan, hscan, hroom, rfl⟩ := nextForm_none h
  have hpos := Scan.pass_pos hscan
  have hdone : d.buffer.drop scan.pos = [] := by
    rw [List.drop_eq_nil_iff]
    simp only [List.length_drop] at hpos
    omega
  have hresume : scan.resume d.buffer = .inl scan := by
    rw [Scan.resume, hdone]
    rfl
  unfold nextForm
  simp only [hresume]
  exact limit_of_le hroom

/-- A call that found nothing to answer finds nothing when it is made again. -/
theorem nextKept_again {d e : Decoder} (h : d.nextKept = (none, e)) :
    e.nextKept = (none, e) ∧ e.discarding = d.discarding := by
  unfold nextKept at h
  split at h
  · next hidle =>
    split at h
    · cases h
      refine ⟨?_, rfl⟩
      unfold nextKept
      rw [if_pos hidle]
      rfl
    · next b rest hrest =>
      have hstrip : (b :: rest).dropWhile isBlankByte = b :: rest := by
        rw [← hrest]
        exact List.dropWhile_idempotent isBlankByte d.buffer
      split at h
      · next hopen =>
        obtain ⟨scan, hscan, hroom, rfl⟩ := nextForm_none h
        refine ⟨?_, rfl⟩
        have hagain := nextForm_again h
        unfold nextKept
        split
        · simp only [hstrip, if_pos hopen]
          exact hagain
        · exact hagain
      · next hopen =>
        obtain ⟨hstray, hroom, rfl⟩ := nextStray_none h
        refine ⟨?_, rfl⟩
        unfold nextKept
        rw [if_pos hidle]
        simp only [hstrip, if_neg hopen]
        exact h
  · next hidle =>
    obtain ⟨scan, hscan, hroom, rfl⟩ := nextForm_none h
    refine ⟨?_, rfl⟩
    have hpos := Scan.pass_pos hscan
    have hbusy : ¬ scan.isIdle = true := by
      simp only [Scan.isIdle, beq_iff_eq] at hidle ⊢
      omega
    unfold nextKept
    rw [if_neg hbusy]
    exact nextForm_again h

theorem next_again {d e : Decoder} (h : d.next = (none, e)) : e.next = (none, e) := by
  cases hdiscarding : d.discarding with
  | false =>
    rw [next_of_kept hdiscarding] at h
    obtain ⟨hagain, hkept⟩ := nextKept_again h
    rw [next_of_kept (hkept.trans hdiscarding), hagain]
  | true =>
    cases hrest : d.buffer.dropWhile fun b => b != lineBreak with
    | nil =>
      rw [next_of_line_open hdiscarding hrest] at h
      cases h
      exact next_of_line_open hdiscarding rfl
    | cons b rest =>
      rw [next_of_line_ended hdiscarding hrest] at h
      obtain ⟨hagain, hkept⟩ := nextKept_again h
      rw [next_of_kept hkept, hagain]

/-- What every call keeps is kept by draining. -/
theorem drain_of_next {P : Decoder → Prop} (hnext : ∀ {d}, P d → P d.next.2) {d : Decoder}
    (h : P d) : P d.drain.2 := by
  induction hsize : d.buffer.length using Nat.strong_induction_on generalizing d with
  | h size ih =>
    have hfirst := hnext h
    cases hcall : d.next with
    | mk response e =>
      rw [hcall] at hfirst
      cases response with
      | none =>
        rw [drain_of_none hcall]
        exact hfirst
      | some r =>
        rw [drain_of_some hcall]
        exact ih e.buffer.length (hsize ▸ next_length_lt hcall) hfirst rfl

/-- After all responses have been taken out there is none. -/
theorem next_drain (d : Decoder) : d.drain.2.next = (none, d.drain.2) := by
  induction hsize : d.buffer.length using Nat.strong_induction_on generalizing d with
  | h size ih =>
    cases hnext : d.next with
    | mk response e =>
      cases response with
      | none =>
        rw [drain_of_none hnext]
        exact next_again hnext
      | some r =>
        rw [drain_of_some hnext]
        exact ih e.buffer.length (hsize ▸ next_length_lt hnext) e rfl

/-- A decoder after some calls on another: the bound is the same, and bytes are gone from the
start of the buffer only. -/
structure Follows (e d : Decoder) : Prop where
  bound_eq : e.bound = d.bound
  suffix : e.buffer <:+ d.buffer

theorem Follows.refl (d : Decoder) : d.Follows d := ⟨rfl, List.suffix_refl _⟩

theorem Follows.trans {d e f : Decoder} (hlast : f.Follows e) (hfirst : e.Follows d) :
    f.Follows d :=
  ⟨hlast.bound_eq.trans hfirst.bound_eq, hlast.suffix.trans hfirst.suffix⟩

theorem limit_follows (d : Decoder) : d.limit.2.Follows d := by
  unfold limit
  split
  · exact ⟨rfl, List.nil_suffix⟩
  · exact .refl d

theorem nextForm_follows (d : Decoder) : d.nextForm.2.Follows d := by
  unfold nextForm
  split
  · exact ⟨rfl, List.drop_suffix _ _⟩
  · exact ⟨rfl, List.drop_suffix _ _⟩
  · next scan hscan =>
    exact (limit_follows { d with scan }).trans ⟨rfl, List.suffix_refl _⟩

theorem nextStray_follows (d : Decoder) : d.nextStray.2.Follows d := by
  unfold nextStray
  split
  · exact limit_follows d
  · exact ⟨rfl, List.dropWhile_suffix _⟩

theorem nextKept_follows (d : Decoder) : d.nextKept.2.Follows d := by
  unfold nextKept
  split
  · have hblank := List.dropWhile_suffix (l := d.buffer) isBlankByte
    split
    · exact ⟨rfl, List.nil_suffix⟩
    · next b rest hrest =>
      rw [hrest] at hblank
      split
      · exact (nextForm_follows _).trans ⟨rfl, hblank⟩
      · exact (nextStray_follows _).trans ⟨rfl, hblank⟩
  · exact nextForm_follows d

/-- A call uses up bytes from the start of the buffer only. -/
theorem next_follows (d : Decoder) : d.next.2.Follows d := by
  unfold next
  split
  · have hline := List.dropWhile_suffix (l := d.buffer) fun b => b != lineBreak
    split
    · exact ⟨rfl, List.nil_suffix⟩
    · next b rest hrest =>
      rw [hrest] at hline
      exact (nextKept_follows _).trans ⟨rfl, (List.suffix_cons b rest).trans hline⟩
  · exact nextKept_follows d

theorem drain_follows (d : Decoder) : d.drain.2.Follows d :=
  drain_of_next (P := fun e => e.Follows d) (fun h => (next_follows _).trans h) (.refl d)

end RemoteEval.Framing.Decoder
