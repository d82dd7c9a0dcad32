import RemoteEval.Proofs.Framing.Bound
import RemoteEval.Proofs.Framing.Ending

/-!
A stream as slices with blanks between them. A slice is an event up to the parenthesis that closes
it, an event that its line or the stream cuts short, or a stretch of stray output; each gives one
response, which its own bytes determine. Every stream can be taken apart in this way, and reading
it to its end gives the responses of the slices, in order and no others.
-/
namespace RemoteEval.Framing

structure IsOpen (slice : List UInt8) : Prop where
  head?_eq : slice.head? = some openParen
  pass_eq : ∃ scan, Scan.pass {} slice = .inl scan

structure IsStray (slice : List UInt8) : Prop where
  ne_nil : slice ≠ []
  head_eq : ∀ b ∈ slice.head?, isBlankByte b = false
  ends_eq : ∀ b ∈ slice, endsStray b = false

/-- What a slice of a stream gives. The byte behind it, if there is one, tells where an event is
cut short and where stray output ends. -/
inductive Gives (slice : List UInt8) (behind : Option UInt8) : Response → Prop where
  | event (hform : IsForm slice) : Gives slice behind (.ofFrame slice)
  | brokenEvent (hopen : IsOpen slice) (hbehind : behind = some lineBreak) :
      Gives slice behind (.ofStray slice .lineEnded)
  | openEvent (hopen : IsOpen slice) (hbehind : behind = none) :
      Gives slice behind (.ofStray slice .streamEnded)
  | stray (hstray : IsStray slice) {b : UInt8} (hbehind : behind = some b)
      (hends : endsStray b = true) : Gives slice behind (.ofStray slice .strayText)
  | lastStray (hstray : IsStray slice) (hbehind : behind = none) :
      Gives slice behind (.ofStray slice .streamEnded)

/-- A stream is blanks and slices by turns, and the slices give these responses. -/
inductive Sliced : List UInt8 → List Response → Prop where
  | blanks {blanks : List UInt8} (hblanks : ∀ b ∈ blanks, isBlankByte b = true) : Sliced blanks []
  | slice (blanks slice : List UInt8) {rest : List UInt8} {response : Response}
      {responses : List Response}
      (hblanks : ∀ b ∈ blanks, isBlankByte b = true) (hne : slice ≠ []) (hline : lineBreak ∉ slice)
      (hgives : Gives slice rest.head? response) (hrest : Sliced rest responses) :
      Sliced (blanks ++ (slice ++ rest)) (response :: responses)

theorem Scan.step_broken {s : Scan} {b : UInt8} {size : Nat}
    (h : s.step b = .inr (.broken size)) : b = lineBreak := by
  unfold Scan.step at h
  repeat' split at h
  all_goals first | assumption | cases h

/-- A form that is broken is still open in front of the line break. -/
theorem Scan.pass_broken {s : Scan} {bytes : List UInt8} {size : Nat}
    (h : s.pass bytes = .inr (.broken size)) :
    ∃ front rest scan, bytes = front ++ lineBreak :: rest ∧ s.pass front = .inl scan := by
  induction bytes generalizing s with
  | nil => cases h
  | cons b bytes ih =>
    rw [Scan.pass] at h
    split at h
    · next t ht =>
      obtain ⟨front, rest, scan, rfl, hfront⟩ := ih h
      refine ⟨b :: front, rest, scan, rfl, ?_⟩
      rw [Scan.pass, ht]
      exact hfront
    · next cut hcut =>
      cases h
      exact ⟨[], bytes, s, by rw [Scan.step_broken hcut]; rfl, rfl⟩

/-- The byte that closes a form is no line break, and neither is one before it. -/
theorem Scan.lineBreak_not_mem_closed {s : Scan} {bytes : List UInt8}
    (h : s.pass bytes = .inr (.closed (s.pos + bytes.length))) : lineBreak ∉ bytes := by
  induction bytes generalizing s with
  | nil => simp
  | cons b rest ih =>
    have hb : lineBreak ≠ b := by
      rintro rfl
      rw [Scan.pass, Scan.step_lineBreak] at h
      cases h
    rw [Scan.pass] at h
    split at h
    · next t ht =>
      have hpos := Scan.step_pos ht
      have hrest := ih (s := t) (by rw [h, hpos, List.length_cons, Nat.add_comm rest.length,
        Nat.add_assoc])
      simp [hb, hrest]
    · next cut hcut =>
      cases h
      rcases Scan.step_cut hcut with hcut | hcut
      · cases hcut
      · have hlength : rest.length = 0 := by
          simp only [Cut.closed.injEq, List.length_cons] at hcut
          omega
        simp [hb, List.length_eq_zero_iff.1 hlength]

theorem IsForm.ne_nil {form : List UInt8} (h : IsForm form) : form ≠ [] := by
  rintro rfl
  cases h.head?_eq

theorem IsForm.lineBreak_not_mem {form : List UInt8} (h : IsForm form) : lineBreak ∉ form :=
  Scan.lineBreak_not_mem_closed (s := {}) (by rw [h.pass_eq, Nat.zero_add])

theorem IsOpen.ne_nil {slice : List UInt8} (h : IsOpen slice) : slice ≠ [] := by
  rintro rfl
  cases h.head?_eq

theorem IsOpen.lineBreak_not_mem {slice : List UInt8} (h : IsOpen slice) : lineBreak ∉ slice := by
  obtain ⟨scan, hpass⟩ := h.pass_eq
  exact Scan.lineBreak_not_mem hpass

theorem IsStray.lineBreak_not_mem {slice : List UInt8} (h : IsStray slice) : lineBreak ∉ slice :=
  fun hbreak => by simpa [endsStray] using h.ends_eq lineBreak hbreak

theorem Gives.ne_nil {slice : List UInt8} {behind : Option UInt8} {response : Response}
    (h : Gives slice behind response) : slice ≠ [] := by
  cases h with
  | event hform => exact hform.ne_nil
  | brokenEvent hopen => exact hopen.ne_nil
  | openEvent hopen => exact hopen.ne_nil
  | stray hstray => exact hstray.ne_nil
  | lastStray hstray => exact hstray.ne_nil

theorem Gives.lineBreak_not_mem {slice : List UInt8} {behind : Option UInt8} {response : Response}
    (h : Gives slice behind response) : lineBreak ∉ slice := by
  cases h with
  | event hform => exact hform.lineBreak_not_mem
  | brokenEvent hopen => exact hopen.lineBreak_not_mem
  | openEvent hopen => exact hopen.lineBreak_not_mem
  | stray hstray => exact hstray.lineBreak_not_mem
  | lastStray hstray => exact hstray.lineBreak_not_mem

/-- Only a whole event answers a request. -/
theorem Gives.isForm {slice : List UInt8} {behind : Option UInt8} {response : Response}
    (h : Gives slice behind response) (hevent : response.id?.isSome = true) :
    IsForm slice ∧ response = .ofFrame slice := by
  cases h with
  | event hform => exact ⟨hform, rfl⟩
  | brokenEvent hopen => cases hevent
  | openEvent hopen => cases hevent
  | stray hstray => cases hevent
  | lastStray hstray => cases hevent

theorem Sliced.exists_form {stream : List UInt8} {responses : List Response}
    (h : Sliced stream responses) {r : Response} (hr : r ∈ responses)
    (hevent : r.id?.isSome = true) :
    ∃ front form back, stream = front ++ form ++ back ∧ IsForm form ∧ r = .ofFrame form := by
  induction h with
  | blanks hblanks => cases hr
  | @slice blanks slice rest response responses hblanks hne hline hgives hrest ih =>
    rcases List.mem_cons.1 hr with rfl | hr
    · obtain ⟨hform, heq⟩ := hgives.isForm hevent
      exact ⟨blanks, slice, rest, (List.append_assoc blanks slice rest).symm, hform, heq⟩
    · obtain ⟨front, form, back, rfl, hform, heq⟩ := ih hr
      exact ⟨blanks ++ slice ++ front, form, back, by simp, hform, heq⟩

/-- Bytes that start with a parenthesis start with an event, whole or cut short. -/
theorem exists_slice_of_openParen {bytes : List UInt8} (hstart : bytes.head? = some openParen) :
    ∃ slice rest response, bytes = slice ++ rest ∧ Gives slice rest.head? response := by
  cases hpass : Scan.pass {} bytes with
  | inl scan =>
    exact ⟨bytes, [], _, (List.append_nil bytes).symm, .openEvent ⟨hstart, scan, hpass⟩ rfl⟩
  | inr cut =>
    cases cut with
    | closed size =>
      exact ⟨bytes.take size, bytes.drop size, _, (List.take_append_drop size bytes).symm,
        .event (isForm_take hstart hpass)⟩
    | broken size =>
      obtain ⟨front, rest, scan, rfl, hfront⟩ := Scan.pass_broken hpass
      have hne : front ≠ [] := by
        rintro rfl
        simp [openParen, lineBreak] at hstart
      rw [List.head?_append_of_ne_nil _ hne] at hstart
      exact ⟨front, lineBreak :: rest, _, rfl, .brokenEvent ⟨hstart, scan, hfront⟩ rfl⟩

/-- Bytes that start with neither a blank nor a parenthesis start with stray output. -/
theorem exists_slice_of_stray {b : UInt8} {bytes : List UInt8} (hblank : isBlankByte b = false)
    (hopen : b ≠ openParen) :
    ∃ slice rest response, b :: bytes = slice ++ rest ∧ Gives slice rest.head? response := by
  have hfirst : endsStray b = false := by
    simp only [isBlankByte, Bool.or_eq_false_iff, decide_eq_false_iff_not] at hblank
    simp [endsStray, hopen, hblank]
  have hsplit : b :: bytes = ((b :: bytes).takeWhile fun b => !endsStray b) ++
      (b :: bytes).dropWhile fun b => !endsStray b := List.takeWhile_append_dropWhile.symm
  have hstray : IsStray ((b :: bytes).takeWhile fun b => !endsStray b) := by
    refine ⟨by simp [hfirst], by simp [hfirst, hblank], fun c hc => ?_⟩
    simpa using List.mem_takeWhile_imp hc
  cases hrest : (b :: bytes).dropWhile fun b => !endsStray b with
  | nil => exact ⟨_, [], _, hrest ▸ hsplit, .lastStray hstray rfl⟩
  | cons c rest =>
    have hends := List.head?_dropWhile_not (fun b => !endsStray b) (b :: bytes)
    rw [hrest] at hends
    exact ⟨_, c :: rest, _, hrest ▸ hsplit, .stray hstray rfl (by simpa using hends)⟩

/-- Every stream can be taken apart. -/
theorem exists_sliced (stream : List UInt8) : ∃ responses, Sliced stream responses := by
  induction hsize : stream.length using Nat.strong_induction_on generalizing stream with
  | h size ih =>
    have hsplit : stream.takeWhile isBlankByte ++ stream.dropWhile isBlankByte = stream :=
      List.takeWhile_append_dropWhile
    have hblanks : ∀ b ∈ stream.takeWhile isBlankByte, isBlankByte b = true :=
      fun b hb => List.mem_takeWhile_imp hb
    cases hrest : stream.dropWhile isBlankByte with
    | nil =>
      rw [hrest, List.append_nil] at hsplit
      exact ⟨[], hsplit ▸ .blanks hblanks⟩
    | cons b bytes =>
      have hblank : isBlankByte b = false := by
        have hhead := List.head?_dropWhile_not isBlankByte stream
        rw [hrest] at hhead
        simpa using hhead
      obtain ⟨slice, rest, response, hslice, hgives⟩ :
          ∃ slice rest response, b :: bytes = slice ++ rest ∧ Gives slice rest.head? response := by
        by_cases hopen : b = openParen
        · exact exists_slice_of_openParen (by simp [hopen])
        · exact exists_slice_of_stray hblank hopen
      rw [hrest, hslice] at hsplit
      have hlt : rest.length < size := by
        have hpos := List.length_pos_iff.2 hgives.ne_nil
        rw [← hsize, ← hsplit, List.length_append, List.length_append]
        omega
      obtain ⟨responses, hresponses⟩ := ih rest.length hlt rest rfl
      exact ⟨response :: responses,
        hsplit ▸ .slice _ _ hblanks hgives.ne_nil hgives.lineBreak_not_mem hgives hresponses⟩

namespace Decoder

theorem next_of_openParen (bound : Nat) {buffer : List UInt8}
    (hstart : buffer.head? = some openParen) :
    Decoder.next { bound, buffer } = Decoder.nextForm { bound, buffer } := by
  obtain ⟨tail, hcons, hdrop⟩ := dropWhile_blank_of_start hstart
  rw [next_of_kept (d := { bound, buffer }) rfl]
  unfold nextKept
  simp only [Scan.isIdle, beq_self_eq_true, if_true, hdrop]
  rw [hcons]

theorem next_of_isStray (bound : Nat) {slice : List UInt8} (h : IsStray slice)
    (rest : List UInt8) :
    Decoder.next { bound, buffer := slice ++ rest } =
      Decoder.nextStray { bound, buffer := slice ++ rest } := by
  cases slice with
  | nil => exact absurd rfl h.ne_nil
  | cons b slice =>
    have hblank := h.head_eq b rfl
    have hopen : b ≠ openParen := by
      rintro rfl
      simpa [endsStray] using h.ends_eq openParen List.mem_cons_self
    rw [next_of_kept (d := { bound, buffer := b :: slice ++ rest }) rfl]
    unfold nextKept
    simp only [Scan.isIdle, beq_self_eq_true, if_true, List.cons_append, List.dropWhile_cons,
      hblank, Bool.false_eq_true, if_false, hopen]

/-- What is left over when the stream has ended is one response. -/
theorem nextAtEnd_left_over {bound : Nat} {buffer : List UInt8} {scan : Scan} {d : Decoder}
    (h : d.next = (none, { bound, buffer, scan })) (hne : buffer ≠ []) :
    d.nextAtEnd = (some (.ofStray buffer .streamEnded), { bound }) := by
  unfold nextAtEnd
  rw [h]
  simp [hne]

/-- An event that is still open and within the bound gives nothing yet. -/
theorem next_of_isOpen {bound : Nat} {slice : List UInt8} (h : IsOpen slice)
    (hroom : slice.length ≤ bound) :
    ∃ scan, Decoder.next { bound, buffer := slice } = (none, { bound, buffer := slice, scan }) := by
  obtain ⟨scan, hpass⟩ := h.pass_eq
  have hresume : Scan.resume {} slice = .inl scan := hpass
  refine ⟨scan, ?_⟩
  rw [next_of_openParen bound h.head?_eq]
  unfold nextForm
  simp only [hresume]
  exact limit_of_le hroom

/-- A slice at the start of the buffer is taken as what it gives, and nothing behind it. -/
theorem nextAtEnd_slice {bound : Nat} {slice rest : List UInt8} {response : Response}
    (h : Gives slice rest.head? response) (hroom : slice.length ≤ bound) :
    Decoder.nextAtEnd { bound, buffer := slice ++ rest } =
      (some response, { bound, buffer := rest }) := by
  cases h with
  | event hform =>
    exact nextAtEnd_of_some (next_form (d := { bound, buffer := slice ++ rest }) (.idle rfl) rfl
      hform rfl)
  | brokenEvent hopen hbehind =>
    obtain ⟨tail, rfl⟩ := List.head?_eq_some_iff.1 hbehind
    obtain ⟨scan, hpass⟩ := hopen.pass_eq
    have hsize : scan.pos = slice.length := by rw [Scan.pass_pos hpass, Nat.zero_add]
    have hcut : Scan.resume {} (slice ++ lineBreak :: tail) = .inr (.broken slice.length) := by
      rw [Scan.resume, List.drop_zero, Scan.pass_append, hpass, ← hsize]
      simp only [Scan.pass, Scan.step_lineBreak]
    apply nextAtEnd_of_some
    have hhead : (slice ++ lineBreak :: tail).head? = some openParen := by
      rw [List.head?_append_of_ne_nil _ hopen.ne_nil, hopen.head?_eq]
    rw [next_of_openParen bound hhead]
    unfold nextForm
    simp only [hcut, drop, List.take_left, List.drop_left]
  | openEvent hopen hbehind =>
    obtain rfl := List.head?_eq_none_iff.1 hbehind
    obtain ⟨scan, hnone⟩ := next_of_isOpen hopen hroom
    rw [List.append_nil]
    exact nextAtEnd_left_over hnone hopen.ne_nil
  | stray hstray hbehind hends =>
    obtain ⟨tail, rfl⟩ := List.head?_eq_some_iff.1 hbehind
    have hkeep : ∀ b ∈ slice, (!endsStray b) = true := fun b hb => by simp [hstray.ends_eq b hb]
    apply nextAtEnd_of_some
    rw [next_of_isStray bound hstray]
    unfold nextStray
    simp only [List.dropWhile_append_of_pos hkeep, List.takeWhile_append_of_pos hkeep,
      List.dropWhile_cons, List.takeWhile_cons, hends, Bool.not_true, Bool.false_eq_true, if_false,
      List.append_nil]
  | lastStray hstray hbehind =>
    obtain rfl := List.head?_eq_none_iff.1 hbehind
    have hkeep : ∀ b ∈ slice, (!endsStray b) = true := fun b hb => by simp [hstray.ends_eq b hb]
    have hnone : next { bound, buffer := slice ++ [] } = (none, { bound, buffer := slice }) := by
      rw [next_of_isStray bound hstray, List.append_nil]
      unfold nextStray
      rw [List.dropWhile_eq_nil_iff.2 hkeep]
      exact limit_of_le hroom
    exact nextAtEnd_left_over hnone hstray.ne_nil

/-- Blanks in front are passed over. -/
theorem next_blanks (bound : Nat) {blanks : List UInt8}
    (hblanks : ∀ b ∈ blanks, isBlankByte b = true) (rest : List UInt8) :
    Decoder.next { bound, buffer := blanks ++ rest } = Decoder.next { bound, buffer := rest } := by
  rw [next_of_kept (d := { bound, buffer := blanks ++ rest }) rfl,
    next_of_kept (d := { bound, buffer := rest }) rfl]
  exact nextKept_congr rfl rfl rfl rfl (List.dropWhile_append_of_pos hblanks)

/-- Reading a stream to its end gives what its slices give, and uses up every byte. -/
theorem drainAtEnd_of_sliced {bound : Nat} {stream : List UInt8} {responses : List Response}
    (h : Sliced stream responses) (hruns : RunsWithin bound stream) :
    Decoder.drainAtEnd { bound, buffer := stream } = (responses, { bound }) := by
  induction h with
  | blanks hblanks =>
    apply drainAtEnd_of_none
    unfold nextAtEnd
    rw [next_of_kept (d := { bound, buffer := _ }) rfl,
      nextKept_blank (d := { bound, buffer := _ }) rfl hblanks]
    rfl
  | @slice blanks slice rest response responses hblanks hne hline hgives hrest ih =>
    have hroom : slice.length ≤ bound := hruns slice ⟨blanks, rest, by simp⟩ hline
    have hbehind : RunsWithin bound rest := hruns.infix ⟨blanks ++ slice, [], by simp⟩
    have hfirst := (nextAtEnd_congr (next_blanks bound hblanks (slice ++ rest))).trans
      (nextAtEnd_slice hgives hroom)
    rw [drainAtEnd_of_some hfirst, ih hbehind]

/-- However a stream is cut, all of it is read at its end. -/
theorem readAll_of_sliced {bound : Nat} {chunks : List (List UInt8)} {responses : List Response}
    (h : Sliced chunks.flatten responses) (hruns : RunsWithin bound chunks.flatten) :
    (Decoder.readAll { bound } chunks).1 ++ (Decoder.readAll { bound } chunks).2.drainAtEnd.1 =
        responses ∧
      (Decoder.readAll { bound } chunks).2.drainAtEnd.2 = { bound } := by
  have hroomy : (Decoder.feed { bound } chunks.flatten).Roomy := ⟨.idle rfl, rfl, hruns⟩
  rw [readAll_eq_drain (synced_fresh bound) (next_fresh bound) chunks hroomy]
  have hdrained := drainAtEnd_of_sliced h hruns
  rw [drainAtEnd_drain] at hdrained
  exact Prod.mk.inj hdrained

/-- A stream whose lines are within the bound is read whole. The decoder ends as new; the responses
are those of the slices into which the stream falls, with nothing but blanks between them; and an
event comes from one stretch of the stream, without a line break. -/
theorem nothing_is_lost_or_invented (bound : Nat) (chunks : List (List UInt8))
    (hruns : RunsWithin bound chunks.flatten) :
    let read := Decoder.readAll { bound } chunks
    let left := read.2.drainAtEnd
    left.2 = { bound } ∧
      (∀ responses, Sliced chunks.flatten responses ↔ read.1 ++ left.1 = responses) ∧
      ∀ r ∈ read.1 ++ left.1, r.id?.isSome = true →
        ∃ front form back, chunks.flatten = front ++ form ++ back ∧ IsForm form ∧
          lineBreak ∉ form ∧ r = .ofFrame form := by
  intro read left
  obtain ⟨responses, hslices⟩ := exists_sliced chunks.flatten
  obtain ⟨hresponses, hleft⟩ := readAll_of_sliced hslices hruns
  change read.1 ++ left.1 = responses at hresponses
  refine ⟨hleft, fun others => ⟨fun h => (readAll_of_sliced h hruns).1, ?_⟩, fun r hr hevent => ?_⟩
  · rintro rfl
    exact hresponses ▸ hslices
  · obtain ⟨front, form, back, hstream, hform, heq⟩ :=
      hslices.exists_form (hresponses ▸ hr) hevent
    exact ⟨front, form, back, hstream, hform, hform.lineBreak_not_mem, heq⟩

/-- Stray output up to an event that its line cuts short, and one that the stream cuts short. -/
theorem nothing_is_lost_or_invented_around_breaks :
    let chunks : List (List UInt8) := [[0x78, 0x28], [0x22, 0x0a, 0x28]]
    let read := Decoder.readAll { bound := 3 } chunks
    RunsWithin 3 chunks.flatten ∧ read.2.drainAtEnd.2 = { bound := 3 } ∧
      read.1 ++ read.2.drainAtEnd.1 = [.ofStray [0x78] .strayText, .ofStray [0x28, 0x22] .lineEnded,
        .ofStray [0x28] .streamEnded] := by
  intro chunks read
  have hruns : RunsWithin 3 chunks.flatten := by decide
  have hstray : IsStray [0x78] :=
    ⟨by decide, fun b hb => by cases hb; rfl, List.forall_mem_singleton.2 rfl⟩
  have hlast : Sliced [0x0a, 0x28] [.ofStray [0x28] .streamEnded] :=
    .slice [0x0a] [0x28] (List.forall_mem_singleton.2 rfl) (by decide) (by decide)
      (.openEvent ⟨rfl, _, rfl⟩ rfl) (.blanks (List.forall_mem_nil _))
  have hevent : Sliced [0x28, 0x22, 0x0a, 0x28] [.ofStray [0x28, 0x22] .lineEnded,
      .ofStray [0x28] .streamEnded] :=
    .slice [] [0x28, 0x22] (List.forall_mem_nil _) (by decide) (by decide)
      (.brokenEvent ⟨rfl, _, rfl⟩ rfl) hlast
  have hslices : Sliced chunks.flatten [.ofStray [0x78] .strayText,
      .ofStray [0x28, 0x22] .lineEnded, .ofStray [0x28] .streamEnded] :=
    .slice [] [0x78] (List.forall_mem_nil _) (by decide) (by decide)
      (.stray hstray rfl rfl) hevent
  obtain ⟨hleft, hresponses, -⟩ := nothing_is_lost_or_invented 3 chunks hruns
  exact ⟨hruns, hleft, (hresponses _).1 hslices⟩

end Decoder

end RemoteEval.Framing
