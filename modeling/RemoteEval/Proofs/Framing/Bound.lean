import RemoteEval.Proofs.Framing.Events
import RemoteEval.Proofs.Framing.Lines

/-!
What the bound keeps out. A decoder compares its buffer with the bound only where it has looked in
vain for the end of an event. So an event that is too long is given up if one of the cuts between
chunks falls inside of it, behind more bytes than the bound allows. If no cut does, the event is
taken however long it is.
-/
namespace RemoteEval.Framing

open Text Response

structure IsForm (form : List UInt8) : Prop where
  head?_eq : form.head? = some openParen
  pass_eq : Scan.pass {} form = .inr (.closed form.length)

/-- A scan that has not come to the end of a form has not come to any end. -/
theorem IsForm.pass_of_lt {form front : List UInt8} (h : IsForm form) (hfront : front <+: form)
    (hlt : front.length < form.length) : ∃ scan, Scan.pass {} front = .inl scan := by
  cases hpass : Scan.pass {} front with
  | inl scan => exact ⟨scan, rfl⟩
  | inr cut =>
    obtain ⟨back, rfl⟩ := hfront
    have hwhole := h.pass_eq
    rw [Scan.pass_append, hpass] at hwhole
    cases hwhole
    have hsize := Scan.pass_cut hpass
    simp only [Nat.zero_add] at hsize
    omega

/-- The bytes up to the parenthesis that closes it are an event. -/
theorem isForm_take {bytes : List UInt8} {size : Nat} (hstart : bytes.head? = some openParen)
    (hcut : Scan.pass {} bytes = .inr (.closed size)) : IsForm (bytes.take size) := by
  have hsize := Scan.pass_cut hcut
  simp only [Nat.zero_add] at hsize
  have htake : Scan.pass {} (bytes.take size) = .inr (.closed (0 + size)) :=
    Scan.pass_take (by simpa using hcut)
  refine ⟨?_, ?_⟩
  · rw [List.head?_take, if_neg (by omega)]
    exact hstart
  · rw [List.length_take, Nat.min_eq_left hsize.2]
    simpa using htake

/-- Whether a cut between chunks falls inside of the bytes from `start` to `stop` of their stream,
behind more than `bound` of these. -/
def CutBehind (bound start stop : Nat) (chunks : List (List UInt8)) : Prop :=
  ∃ n, start + bound < (chunks.take n).flatten.length ∧ (chunks.take n).flatten.length < stop

/-- A cut that is not behind the bound may be closed. -/
theorem cutBehind_cons_cons {bound start stop : Nat} {first : List UInt8}
    (h : first.length ≤ start + bound) (second : List UInt8) (chunks : List (List UInt8)) :
    CutBehind bound start stop (first :: second :: chunks) ↔
      CutBehind bound start stop ((first ++ second) :: chunks) := by
  have hflat (n : Nat) : ((first :: second :: chunks).take (n + 2)).flatten =
      (((first ++ second) :: chunks).take (n + 1)).flatten := by simp
  constructor
  · rintro ⟨n, hbehind, hinside⟩
    match n with
    | 0 => simp at hbehind
    | 1 =>
      simp at hbehind
      omega
    | n + 2 =>
      rw [hflat] at hbehind hinside
      exact ⟨n + 1, hbehind, hinside⟩
  · rintro ⟨n, hbehind, hinside⟩
    match n with
    | 0 => simp at hbehind
    | n + 1 =>
      rw [← hflat] at hbehind hinside
      exact ⟨n + 2, hbehind, hinside⟩

/-- Bytes in front of the first chunk move everything by their number. -/
theorem cutBehind_append (bound start stop : Nat) (front first : List UInt8)
    (chunks : List (List UInt8)) :
    CutBehind bound (front.length + start) (front.length + stop) ((front ++ first) :: chunks) ↔
      CutBehind bound start stop (first :: chunks) := by
  have hflat (n : Nat) : (((front ++ first) :: chunks).take (n + 1)).flatten.length =
      front.length + ((first :: chunks).take (n + 1)).flatten.length := by
    simp only [List.take_succ_cons, List.flatten_cons, List.append_assoc, List.length_append]
  constructor
  · rintro ⟨n, hbehind, hinside⟩
    match n with
    | 0 => simp at hbehind
    | n + 1 =>
      rw [hflat] at hbehind hinside
      exact ⟨n + 1, by omega, by omega⟩
  · rintro ⟨n, hbehind, hinside⟩
    match n with
    | 0 => simp at hbehind
    | n + 1 => exact ⟨n + 1, by rw [hflat]; omega, by rw [hflat]; omega⟩

namespace Decoder

/-- An event that is taken out of the buffer stands in it from its start to its end. -/
theorem nextForm_event {d e : Decoder} {r : Response} (hscan : d.scan = {})
    (hstart : d.buffer.head? = some openParen) (h : d.nextForm = (some r, e))
    (hevent : r.id?.isSome = true) :
    ∃ form, d.buffer = form ++ e.buffer ∧ IsForm form ∧ r = .ofFrame form := by
  have hresume : d.scan.resume d.buffer = Scan.pass {} d.buffer := by simp [hscan, Scan.resume]
  unfold nextForm at h
  rw [hresume] at h
  split at h
  · next size hcut =>
    cases h
    exact ⟨d.buffer.take size, (List.take_append_drop _ _).symm, isForm_take hstart hcut, rfl⟩
  · cases h
    cases hevent
  · unfold limit at h
    split at h
    · cases h
      cases hevent
    · cases h

theorem nextStray_id? {d e : Decoder} {r : Response} (h : d.nextStray = (some r, e)) :
    r.id? = none := by
  unfold nextStray limit at h
  split at h
  · split at h
    · cases h
      rfl
    · cases h
  · cases h
    rfl

theorem nextKept_event {d e : Decoder} {r : Response} (hscan : d.scan = {})
    (h : d.nextKept = (some r, e)) (hevent : r.id?.isSome = true) :
    ∃ front form, d.buffer = front ++ form ++ e.buffer ∧ IsForm form ∧ r = .ofFrame form := by
  unfold nextKept at h
  rw [if_pos (by rw [hscan]; rfl)] at h
  split at h
  · cases h
  · next b rest hrest =>
    split at h
    · next hopen =>
      obtain ⟨form, hbuffer, hform, hr⟩ := nextForm_event (d := { d with buffer := b :: rest })
        hscan (by simp [hopen]) h hevent
      refine ⟨d.buffer.takeWhile isBlankByte, form, ?_, hform, hr⟩
      rw [List.append_assoc, ← hbuffer, ← hrest, List.takeWhile_append_dropWhile]
    · rw [nextStray_id? h] at hevent
      cases hevent

theorem next_event? {d e : Decoder} {r : Response} (hsynced : d.Synced)
    (h : d.next = (some r, e)) (hevent : r.id?.isSome = true) :
    ∃ front form, d.buffer = front ++ form ++ e.buffer ∧ IsForm form ∧ r = .ofFrame form := by
  rw [← next_forget hsynced] at h
  cases hdiscarding : d.discarding with
  | false =>
    rw [next_of_kept (d := d.forget) hdiscarding] at h
    exact nextKept_event (d := d.forget) rfl h hevent
  | true =>
    cases hrest : d.buffer.dropWhile fun b => b != lineBreak with
    | nil =>
      rw [next_of_line_open (d := d.forget) hdiscarding hrest] at h
      cases h
    | cons b rest =>
      rw [next_of_line_ended (d := d.forget) hdiscarding hrest] at h
      obtain ⟨front, form, hbuffer, hform, hr⟩ :=
        nextKept_event (d := { d.forget with buffer := rest, discarding := false }) rfl h hevent
      refine ⟨(d.buffer.takeWhile fun b => b != lineBreak) ++ b :: front, form, ?_, hform, hr⟩
      simp only at hbuffer
      calc
        d.buffer = (d.buffer.takeWhile fun b => b != lineBreak) ++ b :: rest := by
          rw [← hrest, List.takeWhile_append_dropWhile]
        _ = _ := by
          rw [hbuffer]
          simp

/-- Every event of a buffer stands in it. -/
theorem drain_events {d : Decoder} (hsynced : d.Synced) {r : Response} (hr : r ∈ d.drain.1)
    (hevent : r.id?.isSome = true) :
    ∃ front form back, d.buffer = front ++ form ++ back ∧ IsForm form ∧ r = .ofFrame form := by
  induction hsize : d.buffer.length using Nat.strong_induction_on generalizing d with
  | h size ih =>
    cases hnext : d.next with
    | mk response e =>
      cases response with
      | none =>
        rw [drain_of_none hnext] at hr
        cases hr
      | some first =>
        rw [drain_of_some hnext] at hr
        rcases List.mem_cons.1 hr with rfl | hr
        · obtain ⟨front, form, hbuffer, hform, heq⟩ := next_event? hsynced hnext hevent
          exact ⟨front, form, e.buffer, hbuffer, hform, heq⟩
        · have hsyncedNext := hsynced.next
          have hfollows := next_follows d
          rw [hnext] at hsyncedNext hfollows
          obtain ⟨front, form, back, hbuffer, hform, heq⟩ :=
            ih e.buffer.length (hsize ▸ next_length_lt hnext) hsyncedNext hr rfl
          obtain ⟨used, hused⟩ := hfollows.suffix
          refine ⟨used ++ front, form, back, ?_, hform, heq⟩
          rw [← hused, hbuffer]
          simp

theorem nextKept_none_length {d e : Decoder} (h : d.nextKept = (none, e)) :
    e.buffer.length ≤ d.bound := by
  unfold nextKept at h
  split at h
  · split at h
    · cases h
      exact Nat.zero_le _
    · split at h
      · obtain ⟨scan, -, hroom, rfl⟩ := nextForm_none h
        exact hroom
      · obtain ⟨-, hroom, rfl⟩ := nextStray_none h
        exact hroom
  · obtain ⟨scan, -, hroom, rfl⟩ := nextForm_none h
    exact hroom

/-- What is left when no response is found is within the bound. -/
theorem next_none_length {d e : Decoder} (h : d.next = (none, e)) : e.buffer.length ≤ d.bound := by
  unfold next at h
  split at h
  · split at h
    · cases h
      exact Nat.zero_le _
    · next b rest hrest =>
      exact nextKept_none_length (d := { d with buffer := rest, discarding := false }) h
  · exact nextKept_none_length h

theorem readAll_drained {d : Decoder} (h : d.next = (none, d)) (chunks : List (List UInt8)) :
    (d.readAll chunks).2.next = (none, (d.readAll chunks).2) := by
  induction chunks generalizing d with
  | nil => exact h
  | cons chunk chunks ih => exact ih (next_drain (d.feed chunk))

theorem readAll_suffix (d : Decoder) (chunks : List (List UInt8)) :
    (d.readAll chunks).2.buffer <:+ d.buffer ++ chunks.flatten := by
  induction chunks generalizing d with
  | nil => simp [readAll]
  | cons chunk chunks ih =>
    obtain ⟨used, hused⟩ := (drain_follows (d.feed chunk)).suffix
    refine (ih (d.feed chunk).drain.2).trans ⟨used, ?_⟩
    rw [← List.append_assoc, hused]
    simp [feed]

/-- A response comes with one of the chunks. -/
theorem mem_readAll {d : Decoder} {chunks : List (List UInt8)} {r : Response}
    (h : r ∈ (d.readAll chunks).1) :
    ∃ before chunk later, chunks = before ++ chunk :: later ∧
      r ∈ ((d.readAll before).2.feed chunk).drain.1 := by
  induction chunks generalizing d with
  | nil => cases h
  | cons chunk chunks ih =>
    rw [readAll_cons] at h
    rcases List.mem_append.1 h with h | h
    · exact ⟨[], chunk, chunks, rfl, h⟩
    · obtain ⟨before, other, later, rfl, hr⟩ := ih h
      exact ⟨chunk :: before, other, later, rfl, hr⟩

/-- No cut falls inside of an event that is taken, behind more bytes of it than the bound. -/
theorem events_uncut (bound : Nat) (chunks : List (List UInt8)) {r : Response}
    (hr : r ∈ (Decoder.readAll { bound } chunks).1) (hevent : r.id?.isSome = true) :
    ∃ front form back, chunks.flatten = front ++ form ++ back ∧ IsForm form ∧ r = .ofFrame form ∧
      ¬ CutBehind bound front.length (front.length + form.length) chunks := by
  obtain ⟨before, chunk, later, rfl, hfound⟩ := mem_readAll hr
  have hsynced := (synced_fresh bound).readAll before
  have hroom := next_none_length (readAll_drained (next_fresh bound) before)
  rw [readAll_bound] at hroom
  change _ ≤ bound at hroom
  obtain ⟨used, hused⟩ := readAll_suffix { bound } before
  obtain ⟨front, form, back, hbuffer, hform, heq⟩ := drain_events (hsynced.feed chunk) hfound hevent
  change (Decoder.readAll { bound } before).2.buffer ++ chunk = _ at hbuffer
  generalize (Decoder.readAll { bound } before).2.buffer = kept at hroom hused hbuffer
  change used ++ kept = before.flatten at hused
  have hlength := congrArg List.length hbuffer
  have hbefore := congrArg List.length hused
  simp only [List.length_append] at hlength hbefore
  refine ⟨used ++ front, form, back ++ later.flatten, ?_, hform, heq, ?_⟩
  · calc
      (before ++ chunk :: later).flatten = used ++ (kept ++ chunk) ++ later.flatten := by
        rw [List.flatten_append, List.flatten_cons, ← hused]
        simp
      _ = used ++ front ++ form ++ (back ++ later.flatten) := by
        rw [hbuffer]
        simp
  · -- Cuts up to the last chunk but this one leave at most the bound of the buffer in front of
    -- them; later cuts lie behind the buffer with its new chunk.
    rintro ⟨n, hbehind, hinside⟩
    rw [List.length_append] at hbehind hinside
    by_cases hn : n ≤ before.length
    · have hcut : ((before ++ chunk :: later).take n).flatten.length ≤ before.flatten.length := by
        rw [List.take_append_of_le_length hn]
        exact ((List.take_sublist n before).flatten).length_le
      omega
    · obtain ⟨k, rfl⟩ : ∃ k, n = before.length + (k + 1) := ⟨n - before.length - 1, by omega⟩
      rw [List.take_length_add_append, List.take_succ_cons, List.flatten_append,
        List.flatten_cons, List.length_append, List.length_append] at hinside
      omega

def readOn (d : Decoder) (chunks : List (List UInt8)) : List Response :=
  d.drain.1 ++ (d.drain.2.readAll chunks).1

/-- The next response is the event that starts behind `start` bytes, unless a cut between the
chunks falls inside of it behind more bytes than the bound: then the event is given up. -/
def TakesUnlessCut (d : Decoder) (chunks : List (List UInt8)) (start : Nat) (form : List UInt8) :
    Prop :=
  CutBehind d.bound start (start + form.length) (d.buffer :: chunks) ∧
    (∃ preview, (d.readOn chunks).head? = some (.ofStray preview (.tooLong d.bound))) ∨
  ¬ CutBehind d.bound start (start + form.length) (d.buffer :: chunks) ∧
    (d.readOn chunks).head? = some (.ofFrame form)

theorem readOn_of_some {d e : Decoder} {r : Response} (h : d.next = (some r, e))
    (chunks : List (List UInt8)) : (d.readOn chunks).head? = some r := by
  rw [readOn, drain_of_some h]
  rfl

theorem readOn_of_none {d e : Decoder} (h : d.next = (none, e)) (chunk : List UInt8)
    (chunks : List (List UInt8)) : d.readOn (chunk :: chunks) = (e.feed chunk).readOn chunks := by
  rw [readOn, drain_of_none h, readAll_cons]
  rfl

/-- An event that the buffer starts with and holds to its end is taken, however long it is. -/
theorem next_form {d : Decoder} (hsynced : d.Synced) (hkept : d.discarding = false)
    {form rest : List UInt8} (hform : IsForm form) (hbuffer : d.buffer = form ++ rest) :
    d.next = (some (.ofFrame form), { d.forget with buffer := rest }) := by
  have hpass : Scan.pass {} d.buffer = .inr (.closed form.length) := by
    rw [hbuffer, Scan.pass_append, hform.pass_eq]
  have hhead : d.buffer.head? = some openParen := by
    rw [hbuffer, List.head?_append, hform.head?_eq]
    rfl
  obtain ⟨tail, hcons, hdrop⟩ := dropWhile_blank_of_start hhead
  have hresume : Scan.resume {} d.buffer = .inr (.closed form.length) := hpass
  have hnext : d.forget.next = d.forget.nextForm := by
    rw [next_of_kept (d := d.forget) hkept]
    unfold nextKept
    simp only [forget, Scan.isIdle, beq_self_eq_true, if_true, hdrop]
    rw [hcons]
  rw [← next_forget hsynced, hnext]
  unfold nextForm
  simp only [forget, hresume, drop]
  rw [hbuffer, List.take_left, List.drop_left]

/-- An event that is still open is given up when more than the bound of it is buffered. -/
theorem next_open {d : Decoder} (hsynced : d.Synced) (hkept : d.discarding = false)
    {form : List UInt8} (hform : IsForm form) (hfront : d.buffer <+: form)
    (hlt : d.buffer.length < form.length) :
    d.bound < d.buffer.length ∧
      d.next.1 = some (.ofStray (d.buffer.take previewSize) (.tooLong d.bound)) ∨
    d.buffer.length ≤ d.bound ∧ d.next.1 = none ∧ d.next.2.buffer = d.buffer ∧
      d.next.2.discarding = false := by
  obtain ⟨scan, hpass⟩ := hform.pass_of_lt hfront hlt
  have hresume : Scan.resume {} d.buffer = .inl scan := hpass
  rw [← next_forget hsynced, next_of_kept (d := d.forget) hkept]
  by_cases hempty : d.buffer = []
  · refine .inr ?_
    have hnone : d.forget.nextKept = (none, { d.forget with buffer := [] }) := by
      simp [nextKept, forget, Scan.isIdle, hempty]
    rw [hnone]
    simp [hempty, forget, hkept]
  · have hhead : d.buffer.head? = some openParen := by
      obtain ⟨back, rfl⟩ := hfront
      rw [← hform.head?_eq, List.head?_append_of_ne_nil _ hempty]
    obtain ⟨tail, hcons, hdrop⟩ := dropWhile_blank_of_start hhead
    have hnext : d.forget.nextKept = Decoder.limit { d with scan } := by
      unfold nextKept
      simp only [forget, Scan.isIdle, beq_self_eq_true, if_true, hdrop]
      unfold nextForm
      simp only [← hcons, hresume]
    rw [hnext]
    unfold limit
    by_cases hlong : d.bound < d.buffer.length
    · refine .inl ⟨hlong, ?_⟩
      rw [if_pos hlong]
    · refine .inr ⟨Nat.le_of_not_lt hlong, ?_⟩
      rw [if_neg hlong]
      exact ⟨rfl, rfl, hkept⟩

theorem takesUnlessCut_whole {d : Decoder} (hsynced : d.Synced) (hkept : d.discarding = false)
    {form rest : List UInt8} (hform : IsForm form) (hbuffer : d.buffer = form ++ rest)
    (chunks : List (List UInt8)) : d.TakesUnlessCut chunks 0 form := by
  refine .inr ⟨?_, readOn_of_some (next_form hsynced hkept hform hbuffer) chunks⟩
  rintro ⟨n, hbehind, hinside⟩
  match n with
  | 0 => simp at hbehind
  | n + 1 =>
    rw [List.take_succ_cons, List.flatten_cons, hbuffer, List.length_append,
      List.length_append] at hinside
    omega

theorem takesUnlessCut_form {d : Decoder} (hsynced : d.Synced) (hkept : d.discarding = false)
    {form rest : List UInt8} (hform : IsForm form) {chunks : List (List UInt8)}
    (hstream : d.buffer ++ chunks.flatten = form ++ rest) : d.TakesUnlessCut chunks 0 form := by
  induction chunks generalizing d with
  | nil =>
    rw [List.flatten_nil, List.append_nil] at hstream
    exact takesUnlessCut_whole hsynced hkept hform hstream []
  | cons chunk chunks ih =>
    rcases List.append_eq_append_iff.1 hstream with ⟨back, hback, hmore⟩ | ⟨more, hmore, -⟩
    · by_cases hwhole : back = []
      · subst hwhole
        rw [List.append_nil] at hback
        have hbuffer : d.buffer = form ++ [] := by simp [hback]
        exact takesUnlessCut_whole hsynced hkept hform hbuffer _
      · have hlt : d.buffer.length < form.length := by
          have hpos := List.length_pos_iff.2 hwhole
          rw [hback, List.length_append]
          omega
        rcases next_open hsynced hkept hform ⟨back, hback.symm⟩ hlt with
          ⟨hlong, hgiven⟩ | ⟨hroom, hnone, hbuffer, hstill⟩
        · refine .inl ⟨⟨1, ?_⟩, d.buffer.take previewSize, ?_⟩
          · simpa using ⟨hlong, hlt⟩
          · exact readOn_of_some (Prod.ext hgiven rfl) _
        · -- Nothing is given yet, and the chunk comes in behind what is there.
          have hstep := ih (d := d.next.2.feed chunk) (hsynced.next.feed chunk) hstill
          have hfed : (d.next.2.feed chunk).buffer = d.buffer ++ chunk :=
            congrArg (· ++ chunk) hbuffer
          have hbound : (d.next.2.feed chunk).bound = d.bound := (next_follows d).bound_eq
          rw [TakesUnlessCut, hfed, hbound, List.append_assoc, ← cutBehind_cons_cons (by omega),
            ← readOn_of_none (Prod.ext hnone rfl)] at hstep
          exact hstep hstream
    · exact takesUnlessCut_whole hsynced hkept hform hmore _

/-- While a blank stands first no event is open. -/
theorem Synced.scan_of_blank {d : Decoder} (h : d.Synced) {blanks rest tail : List UInt8}
    (hblanks : ∀ b ∈ blanks, isBlankByte b = true) (hne : blanks ≠ [])
    (hstream : d.buffer ++ tail = blanks ++ rest) : d.scan = {} := by
  cases h with
  | idle hscan => exact hscan
  | inside hkept hstart hpass =>
    have hfirst : (d.buffer ++ tail).head? = some openParen := by
      rw [List.head?_append, hstart]
      rfl
    rw [hstream, List.head?_append_of_ne_nil _ hne] at hfirst
    have hblank := hblanks openParen (List.mem_of_head? hfirst)
    simp [isBlankByte_openParen] at hblank

theorem nextKept_blank {d : Decoder} (hscan : d.scan = {})
    (hblank : ∀ b ∈ d.buffer, isBlankByte b = true) :
    d.nextKept = (none, { d with buffer := [] }) := by
  have hnone : d.buffer.dropWhile isBlankByte = [] := List.dropWhile_eq_nil_iff.2 hblank
  unfold nextKept
  simp only [hscan, Scan.isIdle, beq_self_eq_true, if_true, hnone]

/-- Blanks that stand in the buffer before an event are passed over. -/
theorem takesUnlessCut_past_blanks {d : Decoder} (hscan : d.scan = {})
    (hkept : d.discarding = false) {blanks more form rest : List UInt8}
    (hblanks : ∀ b ∈ blanks, isBlankByte b = true) (hform : IsForm form)
    {chunks : List (List UInt8)} (hbuffer : d.buffer = blanks ++ more)
    (hstream : more ++ chunks.flatten = form ++ rest) :
    d.TakesUnlessCut chunks blanks.length form := by
  have hnext : Decoder.next { d with buffer := more } = d.next := by
    rw [next_of_kept hkept, next_of_kept (d := { d with buffer := more }) hkept]
    refine nextKept_congr hscan hscan rfl rfl ?_
    rw [hbuffer, List.dropWhile_append_of_pos hblanks]
  have hread : Decoder.readOn { d with buffer := more } chunks = d.readOn chunks := by
    rw [readOn, readOn, drain_congr hnext]
  have hafter :=
    takesUnlessCut_form (d := { d with buffer := more }) (.idle hscan) hkept hform hstream
  rw [TakesUnlessCut, hread, Nat.zero_add, ← cutBehind_append _ _ _ blanks, Nat.add_zero] at hafter
  rw [TakesUnlessCut, hbuffer]
  exact hafter

/-- Wherever an event starts, behind blanks or not, it is taken unless it is cut. -/
theorem takesUnlessCut_blanks {d : Decoder} (hsynced : d.Synced) (hkept : d.discarding = false)
    {blanks form rest : List UInt8} (hblanks : ∀ b ∈ blanks, isBlankByte b = true)
    (hform : IsForm form) {chunks : List (List UInt8)}
    (hstream : d.buffer ++ chunks.flatten = blanks ++ (form ++ rest)) :
    d.TakesUnlessCut chunks blanks.length form := by
  induction chunks generalizing d blanks with
  | nil =>
    have hbuffer : d.buffer = blanks ++ (form ++ rest) := by simpa using hstream
    by_cases hnil : blanks = []
    · subst hnil
      exact takesUnlessCut_form hsynced hkept hform hstream
    · exact takesUnlessCut_past_blanks (hsynced.scan_of_blank hblanks hnil hstream) hkept hblanks
        hform hbuffer (List.append_nil _)
  | cons chunk chunks ih =>
    by_cases hnil : blanks = []
    · subst hnil
      exact takesUnlessCut_form hsynced hkept hform hstream
    have hscan := hsynced.scan_of_blank hblanks hnil hstream
    rcases List.append_eq_append_iff.1 hstream with ⟨more, rfl, hmore⟩ | ⟨more, hbuffer, hmore⟩
    · -- The buffer holds blanks only: they go, and the chunk comes in.
      have hnone : d.next = (none, { d with buffer := [] }) := by
        rw [next_of_kept hkept]
        exact nextKept_blank hscan fun b hb => hblanks b (List.mem_append_left _ hb)
      have hstep := ih (d := Decoder.feed { d with buffer := [] } chunk) (.idle hscan) hkept
        (fun b hb => hblanks b (List.mem_append_right _ hb)) (by simpa [feed] using hmore)
      rw [TakesUnlessCut, ← readOn_of_none hnone] at hstep
      rw [TakesUnlessCut, List.length_append, cutBehind_cons_cons (by omega), Nat.add_assoc,
        cutBehind_append]
      exact hstep
    · exact takesUnlessCut_past_blanks hscan hkept hblanks hform hbuffer hmore.symm

/-- An event that is taken is cut nowhere behind more bytes than the bound. Wherever an event
starts in a stream, the next response is the event, unless a cut falls inside of it behind more
bytes than the bound: then it is given up. -/
theorem long_events_are_given_up_where_cut (bound : Nat) :
    (∀ chunks, ∀ r ∈ (Decoder.readAll { bound } chunks).1, r.id?.isSome = true →
      ∃ front form back, chunks.flatten = front ++ form ++ back ∧ IsForm form ∧
        r = .ofFrame form ∧
        ¬ CutBehind bound front.length (front.length + form.length) chunks) ∧
    ∀ (calls : List Call) (chunks : List (List UInt8)) (blanks form rest : List UInt8),
      let d := performAll { bound } calls
      d.discarding = false → (∀ b ∈ blanks, isBlankByte b = true) → IsForm form →
      d.buffer ++ chunks.flatten = blanks ++ (form ++ rest) →
        d.bound = bound ∧ d.TakesUnlessCut chunks blanks.length form := by
  refine ⟨fun chunks r => events_uncut bound chunks, ?_⟩
  intro calls chunks blanks form rest d hkept hblanks hform hstream
  exact ⟨performAll_bound _ calls,
    takesUnlessCut_blanks ((synced_fresh bound).performAll calls) hkept hblanks hform hstream⟩

def shortSuccess : List UInt8 :=
  [0x28, 0x73, 0x75, 0x63, 0x63, 0x65, 0x73, 0x73, 0x20, 0x22, 0x61, 0x22, 0x29]

/-- The event `(success "a")` under a bound of four bytes, cut behind the fifth. -/
theorem long_event_is_given_up_where_cut :
    IsForm shortSuccess ∧
      CutBehind 4 0 13 [[], shortSuccess.take 5, shortSuccess.drop 5] ∧
      ∃ preview, (Decoder.readOn { bound := 4 } [shortSuccess.take 5, shortSuccess.drop 5]).head? =
        some (.ofStray preview (.tooLong 4)) := by
  have hform : IsForm shortSuccess := ⟨by decide, by decide⟩
  have hcut : CutBehind 4 0 13 [[], shortSuccess.take 5, shortSuccess.drop 5] := ⟨2, by decide⟩
  have hread := (long_events_are_given_up_where_cut 4).2 []
    [shortSuccess.take 5, shortSuccess.drop 5] [] shortSuccess [] rfl (by simp) hform (by decide)
  rcases hread.2 with ⟨-, hgiven⟩ | ⟨huncut, -⟩
  · exact ⟨hform, hcut, hgiven⟩
  · exact absurd hcut huncut

/-- The same event is dispatched if it comes in whole, and not if it comes in two pieces. -/
theorem long_event_is_taken_whole :
    IsForm shortSuccess ∧ 4 < shortSuccess.length ∧
      (Decoder.readAll { bound := 4 } [shortSuccess]).1 = [.success "a"] ∧
      (Decoder.readAll { bound := 4 } [shortSuccess.take 5, shortSuccess.drop 5]).1 =
        [.ofStray (shortSuccess.take 5) (.tooLong 4)] := by
  have hid : StringWritten "a" "\"a\"".toList :=
    ⟨['a'], .cons (.plain (by decide) (by decide) (by decide)) .nil, rfl⟩
  have hevent : EventWritten (.success "a") "(success \"a\")".toList := .success hid
  have hwhole : Decoder.drain { bound := 4, buffer := shortSuccess } =
      ([.success "a"], { bound := 4 }) := by
    have hnext := next_event 4 hevent []
    rw [List.append_nil] at hnext
    rw [drain_of_some (show Decoder.next { bound := 4, buffer := shortSuccess } = _ from hnext),
      drain_of_none (next_fresh 4)]
  have hfirst : Decoder.drain { bound := 4, buffer := shortSuccess.take 5 } =
      ([.ofStray (shortSuccess.take 5) (.tooLong 4)], { bound := 4, discarding := true }) := by
    have hgiven : Decoder.next { bound := 4, buffer := shortSuccess.take 5 } =
        (some (.ofStray (shortSuccess.take 5) (.tooLong 4)),
          { bound := 4, discarding := true }) := rfl
    rw [drain_of_some hgiven, drain_of_none rfl]
  have hsecond : Decoder.drain
      { bound := 4, buffer := shortSuccess.drop 5, discarding := true } =
        ([], { bound := 4, discarding := true }) := drain_of_none rfl
  refine ⟨⟨by decide, by decide⟩, by decide, ?_, ?_⟩
  · rw [readAll_cons]
    simp only [feed, List.nil_append, hwhole]
    rfl
  · rw [readAll_cons, readAll_cons]
    simp only [feed, List.nil_append, hfirst, hsecond]
    rfl

end Decoder

end RemoteEval.Framing
