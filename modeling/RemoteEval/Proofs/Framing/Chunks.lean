import Mathlib.Data.List.Infix
import RemoteEval.Proofs.Framing.Drain
import RemoteEval.Proofs.Framing.Rescan

/-!
Reading a stream chunk by chunk. More bytes never change a response that could be cut out before
they came, and a call that found none leaves a buffer of which the next call makes the same. So
the cuts between chunks do not matter, as long as no line is longer than the bound.
-/
namespace RemoteEval.Framing

def RunsWithin (bound : Nat) (bytes : List UInt8) : Prop :=
  ∀ run, run <:+: bytes → lineBreak ∉ run → run.length ≤ bound

theorem RunsWithin.infix {bound : Nat} {part bytes : List UInt8} (h : RunsWithin bound bytes)
    (hpart : part <:+: bytes) : RunsWithin bound part :=
  fun run hrun hbreak => h run (hrun.trans hpart) hbreak

/-- The longest stretches without a line break are those between two line breaks. -/
theorem runsWithin_iff (bound : Nat) (bytes : List UInt8) :
    RunsWithin bound bytes ↔
      ∀ tail ∈ bytes.tails, (tail.takeWhile fun b => b != lineBreak).length ≤ bound := by
  constructor
  · intro h tail htail
    apply h
    · exact (List.takeWhile_prefix _).isInfix.trans ((List.mem_tails _ _).1 htail).isInfix
    · intro hbreak
      simpa using List.mem_takeWhile_imp hbreak
  · rintro h run ⟨before, after, rfl⟩ hbreak
    have htail := h (run ++ after)
      ((List.mem_tails _ _).2 ⟨before, by rw [List.append_assoc]⟩)
    have hrun : ∀ b ∈ run, (b != lineBreak) = true := by
      intro b hb
      simp only [bne_iff_ne]
      rintro rfl
      exact hbreak hb
    rw [List.takeWhile_append_of_pos hrun, List.length_append] at htail
    omega

instance (bound : Nat) (bytes : List UInt8) : Decidable (RunsWithin bound bytes) :=
  decidable_of_iff _ (runsWithin_iff bound bytes).symm

theorem Scan.step_lineBreak (s : Scan) : s.step lineBreak = .inr (.broken s.pos) := by
  simp [Scan.step]

/-- A form that is still open has met no line break. -/
theorem Scan.lineBreak_not_mem {s t : Scan} {bytes : List UInt8} (h : s.pass bytes = .inl t) :
    lineBreak ∉ bytes := by
  induction bytes generalizing s with
  | nil => simp
  | cons b rest ih =>
    rw [Scan.pass] at h
    split at h
    · next u hu =>
      have hb : lineBreak ≠ b := by
        rintro rfl
        simp [Scan.step_lineBreak] at hu
      simp [hb, ih h]
    · cases h

def TailsWithin (bound : Nat) (bytes : List UInt8) : Prop :=
  ∀ tail, tail <:+ bytes → lineBreak ∉ tail → tail.length ≤ bound

theorem TailsWithin.suffix {bound : Nat} {part bytes : List UInt8} (h : TailsWithin bound bytes)
    (hpart : part <:+ bytes) : TailsWithin bound part :=
  fun tail htail hbreak => h tail (htail.trans hpart) hbreak

theorem RunsWithin.tails {bound : Nat} {bytes : List UInt8} (h : RunsWithin bound bytes) :
    TailsWithin bound bytes :=
  fun tail htail hbreak => h tail htail.isInfix hbreak

theorem lineBreak_not_mem_of_stray {bytes : List UInt8}
    (h : (bytes.dropWhile fun b => !endsStray b) = []) : lineBreak ∉ bytes := by
  intro hbreak
  have hstray := List.dropWhile_eq_nil_iff.1 h lineBreak hbreak
  simp [endsStray] at hstray

theorem dropWhile_dropWhile_append (p : UInt8 → Bool) (first second : List UInt8) :
    (first.dropWhile p ++ second).dropWhile p = (first ++ second).dropWhile p := by
  induction first with
  | nil => rfl
  | cons b rest ih => by_cases hb : p b = true <;> simp [hb, ih]

namespace Decoder

theorem limit_kept {d : Decoder} (hkept : d.discarding = false)
    (hroom : d.buffer.length ≤ d.bound) : d.limit.2.discarding = false := by
  rw [limit_of_le hroom]
  exact hkept

/-- An open form within its line is no longer than the bound on lines. -/
theorem nextForm_kept {d : Decoder} (hscan : d.scan = {}) (hkept : d.discarding = false)
    (htails : TailsWithin d.bound d.buffer) : d.nextForm.2.discarding = false := by
  unfold nextForm
  split
  · exact hkept
  · exact hkept
  · next scan hpass =>
    rw [hscan] at hpass
    have hroom := htails d.buffer (List.suffix_refl _) (Scan.lineBreak_not_mem hpass)
    exact limit_kept (d := { d with scan }) hkept hroom

theorem nextStray_kept {d : Decoder} (hkept : d.discarding = false)
    (htails : TailsWithin d.bound d.buffer) : d.nextStray.2.discarding = false := by
  unfold nextStray
  split
  · next hrest =>
    apply limit_kept hkept
    exact htails d.buffer (List.suffix_refl _) (lineBreak_not_mem_of_stray hrest)
  · exact hkept

theorem nextKept_kept {d : Decoder} (hscan : d.scan = {}) (hkept : d.discarding = false)
    (htails : TailsWithin d.bound d.buffer) : d.nextKept.2.discarding = false := by
  unfold nextKept
  rw [if_pos (by rw [hscan]; rfl)]
  split
  · exact hkept
  · next b rest hrest =>
    have hwithin : TailsWithin d.bound (b :: rest) :=
      htails.suffix (hrest ▸ List.dropWhile_suffix (l := d.buffer) isBlankByte)
    split
    · exact nextForm_kept hscan hkept hwithin
    · exact nextStray_kept hkept hwithin

/-- Nothing is thrown away, or no longer, while every unfinished line is within the bound. -/
theorem next_kept {d : Decoder} (h : d.Synced) (hbreak : d.discarding = true → lineBreak ∈ d.buffer)
    (htails : TailsWithin d.bound d.buffer) : d.next.2.discarding = false := by
  rw [← next_forget h]
  cases hdiscarding : d.discarding with
  | false =>
    rw [next_of_kept (d := d.forget) hdiscarding]
    exact nextKept_kept (d := d.forget) rfl hdiscarding htails
  | true =>
    cases hrest : d.buffer.dropWhile fun b => b != lineBreak with
    | nil =>
      have hnone := List.dropWhile_eq_nil_iff.1 hrest lineBreak (hbreak hdiscarding)
      simp at hnone
    | cons b rest =>
      rw [next_of_line_ended (d := d.forget) hdiscarding hrest]
      have hline := List.dropWhile_suffix (l := d.buffer) fun b => b != lineBreak
      rw [hrest] at hline
      exact nextKept_kept (d := { d.forget with buffer := rest, discarding := false }) rfl rfl
        (htails.suffix ((List.suffix_cons b rest).trans hline))

/-- A decoder that is throwing nothing away and need not, since its lines are within the bound. -/
structure Roomy (d : Decoder) : Prop where
  synced : d.Synced
  kept : d.discarding = false
  runs : RunsWithin d.bound d.buffer

theorem Roomy.next {d : Decoder} (h : d.Roomy) : d.next.2.Roomy where
  synced := h.synced.next
  kept := next_kept h.synced (by simp [h.kept]) h.runs.tails
  runs := by
    rw [(next_follows d).bound_eq]
    exact h.runs.infix (next_follows d).suffix.isInfix

theorem Roomy.drain {d : Decoder} (h : d.Roomy) : d.drain.2.Roomy := drain_of_next Roomy.next h

/-- A form that is cut out is cut out in the same way when more bytes follow. -/
theorem nextForm_feed_some {d e : Decoder} {r : Response} (hscan : d.scan = {})
    (h : d.nextForm = (some r, e)) (hkept : e.discarding = false) (bytes : List UInt8) :
    (d.feed bytes).nextForm = (some r, e.feed bytes) := by
  have hresume : (d.feed bytes).scan.resume (d.feed bytes).buffer =
      Scan.pass {} (d.buffer ++ bytes) := by
    simp [feed, hscan, Scan.resume]
  have hbefore : d.scan.resume d.buffer = Scan.pass {} d.buffer := by simp [hscan, Scan.resume]
  unfold nextForm at h ⊢
  rw [hbefore] at h
  rw [hresume, Scan.pass_append]
  split at h
  · next size hcut =>
    cases h
    have hsize := Scan.pass_cut hcut
    simp only [hcut]
    simp only [feed, drop, Nat.zero_add] at hsize ⊢
    rw [List.take_append_of_le_length hsize.2, List.drop_append_of_le_length hsize.2]
  · next size hcut =>
    cases h
    have hsize := Scan.pass_cut hcut
    simp only [hcut]
    simp only [feed, drop, Nat.zero_add] at hsize ⊢
    rw [List.take_append_of_le_length (by omega), List.drop_append_of_le_length (by omega)]
  · unfold limit at h
    split at h
    · cases h
      simp at hkept
    · cases h

/-- Stray output that has ended ends in the same place when more bytes follow. -/
theorem nextStray_feed_some {d e : Decoder} {r : Response} (h : d.nextStray = (some r, e))
    (hkept : e.discarding = false) (bytes : List UInt8) :
    (d.feed bytes).nextStray = (some r, e.feed bytes) := by
  unfold nextStray at h
  split at h
  · unfold limit at h
    split at h
    · cases h
      simp at hkept
    · cases h
  · next rest hrest =>
    cases h
    have hfeed : (d.feed bytes).buffer = d.buffer ++ bytes := rfl
    have hlong : ((d.buffer ++ bytes).dropWhile fun b => !endsStray b) =
        (d.buffer.dropWhile fun b => !endsStray b) ++ bytes := by
      rw [List.dropWhile_append, if_neg (by simpa using hrest)]
    have hsame : ((d.buffer ++ bytes).takeWhile fun b => !endsStray b) =
        d.buffer.takeWhile fun b => !endsStray b := by
      have hsplit := List.takeWhile_append_dropWhile
        (p := fun b => !endsStray b) (l := d.buffer ++ bytes)
      rw [hlong, ← List.append_assoc] at hsplit
      have hcut := List.append_cancel_right hsplit
      refine List.append_cancel_right (hcut.trans ?_)
      exact List.takeWhile_append_dropWhile.symm
    unfold nextStray
    rw [hfeed, hlong, hsame]
    split
    · next hnil => exact absurd (List.append_eq_nil_iff.1 hnil).1 hrest
    · rfl

theorem nextKept_feed_some {d e : Decoder} {r : Response} (hscan : d.scan = {})
    (h : d.nextKept = (some r, e)) (hkept : e.discarding = false) (bytes : List UInt8) :
    (d.feed bytes).nextKept = (some r, e.feed bytes) := by
  have hidle : d.scan.isIdle = true := by rw [hscan]; rfl
  unfold nextKept at h
  rw [if_pos hidle] at h
  split at h
  · cases h
  · next b rest hrest =>
    have hlong : (d.feed bytes).buffer.dropWhile isBlankByte = b :: (rest ++ bytes) := by
      change (d.buffer ++ bytes).dropWhile isBlankByte = _
      rw [List.dropWhile_append, if_neg (by simp [hrest]), hrest, List.cons_append]
    unfold nextKept
    rw [if_pos (show (d.feed bytes).scan.isIdle = true from hidle)]
    simp only [hlong]
    split at h
    · next hopen =>
      rw [if_pos hopen]
      exact nextForm_feed_some (d := { d with buffer := b :: rest }) hscan h hkept bytes
    · next hopen =>
      rw [if_neg hopen]
      exact nextStray_feed_some (d := { d with buffer := b :: rest }) h hkept bytes

/-- The line that is being thrown away ends in the same place when more bytes follow. -/
theorem line_ended_feed {d : Decoder} {b : UInt8} {rest : List UInt8}
    (hrest : (d.buffer.dropWhile fun b => b != lineBreak) = b :: rest) (bytes : List UInt8) :
    ((d.feed bytes).buffer.dropWhile fun b => b != lineBreak) = b :: (rest ++ bytes) := by
  change ((d.buffer ++ bytes).dropWhile fun b => b != lineBreak) = _
  rw [List.dropWhile_append, if_neg (by simp [hrest]), hrest, List.cons_append]

/-- Later bytes do not change an earlier response, unless that gives up a line. -/
theorem next_feed_some {d e : Decoder} {r : Response} (hsynced : d.Synced)
    (h : d.next = (some r, e)) (hkept : e.discarding = false) (bytes : List UInt8) :
    (d.feed bytes).next = (some r, e.feed bytes) := by
  rw [← next_forget (hsynced.feed bytes)]
  rw [← next_forget hsynced] at h
  change (d.forget.feed bytes).next = _
  cases hdiscarding : d.discarding with
  | false =>
    rw [next_of_kept (d := d.forget) hdiscarding] at h
    rw [next_of_kept (d := d.forget.feed bytes) hdiscarding]
    exact nextKept_feed_some rfl h hkept bytes
  | true =>
    cases hrest : d.buffer.dropWhile fun b => b != lineBreak with
    | nil =>
      rw [next_of_line_open (d := d.forget) hdiscarding hrest] at h
      cases h
    | cons b rest =>
      rw [next_of_line_ended (d := d.forget) hdiscarding hrest] at h
      rw [next_of_line_ended (d := d.forget.feed bytes) hdiscarding (line_ended_feed hrest bytes)]
      exact nextKept_feed_some (d := { d.forget with buffer := rest, discarding := false })
        rfl h hkept bytes

/-- Blanks in front of the buffer make no difference to an idle scan. -/
theorem nextKept_congr {d e : Decoder} (hd : d.scan = {}) (he : e.scan = {})
    (hbound : e.bound = d.bound) (hkept : e.discarding = d.discarding)
    (hblank : e.buffer.dropWhile isBlankByte = d.buffer.dropWhile isBlankByte) :
    e.nextKept = d.nextKept := by
  obtain ⟨bound, buffer, scan, discarding⟩ := d
  obtain ⟨bound', buffer', scan', discarding'⟩ := e
  simp only at hd he hbound hkept hblank
  subst hd he hbound hkept
  unfold nextKept
  simp only [Scan.isIdle, beq_self_eq_true, if_true, hblank]

/-- A call without an answer only strips blanks and moves the scan on. -/
theorem nextKept_none_forget {d e : Decoder} (hscan : d.scan = {}) (h : d.nextKept = (none, e)) :
    e.forget = { d with buffer := d.buffer.dropWhile isBlankByte } := by
  unfold nextKept at h
  rw [if_pos (by rw [hscan]; rfl)] at h
  split at h
  · next hrest =>
    cases h
    simp [forget, hrest, ← hscan]
  · next b rest hrest =>
    split at h
    · obtain ⟨scan, -, -, rfl⟩ := nextForm_none h
      simp [forget, hrest, ← hscan]
    · obtain ⟨-, -, rfl⟩ := nextStray_none h
      simp [forget, hrest, ← hscan]

theorem nextKept_feed_none {d e : Decoder} (hscan : d.scan = {}) (h : d.nextKept = (none, e))
    (bytes : List UInt8) : (d.feed bytes).nextKept = (e.forget.feed bytes).nextKept := by
  have hforget := nextKept_none_forget hscan h
  refine nextKept_congr rfl hscan ?_ ?_ ?_
  · simp [hforget, feed]
  · simp [hforget, feed]
  · simp only [hforget, feed]
    exact (dropWhile_dropWhile_append isBlankByte d.buffer bytes).symm

/-- A call without an answer loses nothing: with more bytes the next call gives the same as if
it had not been made. -/
theorem next_feed_none {d e : Decoder} (hsynced : d.Synced) (h : d.next = (none, e))
    (bytes : List UInt8) : (d.feed bytes).next = (e.feed bytes).next := by
  have hsyncedAfter : e.Synced := by
    have hafter := hsynced.next
    rwa [h] at hafter
  rw [← next_forget (hsynced.feed bytes), ← next_forget (hsyncedAfter.feed bytes)]
  rw [← next_forget hsynced] at h
  change (d.forget.feed bytes).next = (e.forget.feed bytes).next
  cases hdiscarding : d.discarding with
  | false =>
    rw [next_of_kept (d := d.forget) hdiscarding] at h
    have hkept := (nextKept_again h).2.trans hdiscarding
    rw [next_of_kept (d := d.forget.feed bytes) hdiscarding,
      next_of_kept (d := e.forget.feed bytes) hkept]
    exact nextKept_feed_none rfl h bytes
  | true =>
    cases hrest : d.buffer.dropWhile fun b => b != lineBreak with
    | nil =>
      rw [next_of_line_open (d := d.forget) hdiscarding hrest] at h
      cases h
      have hlong : ((d.forget.feed bytes).buffer.dropWhile fun b => b != lineBreak) =
          bytes.dropWhile fun b => b != lineBreak := by
        change ((d.buffer ++ bytes).dropWhile fun b => b != lineBreak) = _
        rw [List.dropWhile_append, if_pos (by simp [hrest])]
      cases hbytes : bytes.dropWhile fun b => b != lineBreak with
      | nil =>
        rw [next_of_line_open (d := d.forget.feed bytes) hdiscarding (hlong.trans hbytes)]
        exact (next_of_line_open (d := (forget { d.forget with buffer := [] }).feed bytes)
          hdiscarding hbytes).symm
      | cons b rest =>
        rw [next_of_line_ended (d := d.forget.feed bytes) hdiscarding (hlong.trans hbytes)]
        exact (next_of_line_ended (d := (forget { d.forget with buffer := [] }).feed bytes)
          hdiscarding hbytes).symm
    | cons b rest =>
      rw [next_of_line_ended (d := d.forget) hdiscarding hrest] at h
      have hkept := (nextKept_again h).2
      rw [next_of_line_ended (d := d.forget.feed bytes) hdiscarding (line_ended_feed hrest bytes),
        next_of_kept (d := e.forget.feed bytes) hkept]
      exact nextKept_feed_none (d := { d.forget with buffer := rest, discarding := false })
        rfl h bytes

/-- A property of decoders that every call keeps and under which no call gives up a line. -/
structure KeepsLines (P : Decoder → Prop) : Prop where
  synced : ∀ {d}, P d → d.Synced
  next : ∀ {d}, P d → P d.next.2
  kept : ∀ {d}, P d → d.next.2.discarding = false

theorem keepsLines_roomy : KeepsLines Roomy := ⟨Roomy.synced, Roomy.next, fun h => h.next.kept⟩

/-- Taking responses out before or after more bytes come in makes no difference. -/
theorem drain_feed {P : Decoder → Prop} (hkeeps : KeepsLines P) {d : Decoder} (h : P d)
    (bytes : List UInt8) :
    (d.feed bytes).drain =
      (d.drain.1 ++ (d.drain.2.feed bytes).drain.1, (d.drain.2.feed bytes).drain.2) := by
  induction hsize : d.buffer.length using Nat.strong_induction_on generalizing d with
  | h size ih =>
    have hafter := hkeeps.next h
    have hkept := hkeeps.kept h
    cases hnext : d.next with
    | mk response e =>
      rw [hnext] at hafter hkept
      cases response with
      | none =>
        rw [drain_of_none hnext, drain_congr (next_feed_none (hkeeps.synced h) hnext bytes)]
        rfl
      | some r =>
        have hlt : e.buffer.length < size := hsize ▸ next_length_lt hnext
        rw [drain_of_some hnext,
          drain_of_some (next_feed_some (hkeeps.synced h) hnext hkept bytes),
          ih e.buffer.length hlt hafter rfl]
        rfl

def readAll (d : Decoder) : List (List UInt8) → List Response × Decoder
  | [] => ([], d)
  | chunk :: chunks =>
    let (responses, e) := (d.feed chunk).drain
    let (more, e) := e.readAll chunks
    (responses ++ more, e)

theorem readAll_cons (d : Decoder) (chunk : List UInt8) (chunks : List (List UInt8)) :
    d.readAll (chunk :: chunks) =
      ((d.feed chunk).drain.1 ++ ((d.feed chunk).drain.2.readAll chunks).1,
        ((d.feed chunk).drain.2.readAll chunks).2) := rfl

theorem Roomy.of_suffix {d e : Decoder} {bytes : List UInt8} (h : (d.feed bytes).Roomy)
    (hfollows : e.Follows d) (hsynced : e.Synced) (hkept : e.discarding = false) :
    (e.feed bytes).Roomy where
  synced := hsynced.feed bytes
  kept := hkept
  runs := by
    change RunsWithin e.bound (e.buffer ++ bytes)
    rw [hfollows.bound_eq]
    obtain ⟨front, hfront⟩ := hfollows.suffix
    refine h.runs.infix ⟨front, [], ?_⟩
    simp [feed, ← hfront]

theorem Roomy.of_feed {d : Decoder} {bytes : List UInt8} (h : (d.feed bytes).Roomy)
    (hsynced : d.Synced) : d.Roomy where
  synced := hsynced
  kept := h.kept
  runs := h.runs.infix (List.prefix_append d.buffer bytes).isInfix

/-- Reading in chunks is reading all at once. -/
theorem readAll_eq_drain {d : Decoder} (hsynced : d.Synced) (hempty : d.next = (none, d))
    (chunks : List (List UInt8)) (h : (d.feed chunks.flatten).Roomy) :
    d.readAll chunks = (d.feed chunks.flatten).drain := by
  induction chunks generalizing d with
  | nil =>
    have hsame : d.feed [] = d := by simp [feed]
    rw [List.flatten_nil, hsame, drain_of_none hempty]
    rfl
  | cons chunk chunks ih =>
    have hsplit : d.feed (chunk :: chunks).flatten = (d.feed chunk).feed chunks.flatten := by
      simp [feed]
    rw [hsplit] at h ⊢
    have hfirst : (d.feed chunk).Roomy := h.of_feed (hsynced.feed chunk)
    have hdrained := hfirst.drain
    have hrest : ((d.feed chunk).drain.2.feed chunks.flatten).Roomy :=
      h.of_suffix (drain_follows _) hdrained.synced hdrained.kept
    rw [readAll_cons, drain_feed keepsLines_roomy hfirst, ih hdrained.synced (next_drain _) hrest]

theorem next_fresh (bound : Nat) : Decoder.next { bound } = (none, { bound }) := rfl

/-- The same bytes cut in two ways give the same responses and leave the same decoder, if no line
is longer than the bound. -/
theorem cuts_do_not_matter (bound : Nat) (first second : List (List UInt8))
    (hsame : first.flatten = second.flatten) (hruns : RunsWithin bound first.flatten) :
    Decoder.readAll { bound } first = Decoder.readAll { bound } second := by
  have hroomy : (Decoder.feed { bound } first.flatten).Roomy := ⟨.idle rfl, rfl, hruns⟩
  rw [readAll_eq_drain (synced_fresh bound) (next_fresh bound) first hroomy,
    readAll_eq_drain (synced_fresh bound) (next_fresh bound) second (hsame ▸ hroomy), hsame]

/-- A cut behind a backslash in a string, and one in front of it. -/
theorem cuts_do_not_matter_in_string :
    ([[0x28, 0x22, 0x5c], [0x22, 0x22, 0x29, 0x0a, 0x78]] : List (List UInt8)).flatten =
        [[0x28, 0x22], [0x5c, 0x22, 0x22], [0x29, 0x0a], [0x78]].flatten ∧
      RunsWithin 6 [0x28, 0x22, 0x5c, 0x22, 0x22, 0x29, 0x0a, 0x78] ∧
      Decoder.readAll { bound := 6 } [[0x28, 0x22, 0x5c], [0x22, 0x22, 0x29, 0x0a, 0x78]] =
        Decoder.readAll { bound := 6 } [[0x28, 0x22], [0x5c, 0x22, 0x22], [0x29, 0x0a], [0x78]] :=
  ⟨by decide, by decide, cuts_do_not_matter 6 _ _ (by decide) (by decide)⟩

end Decoder

end RemoteEval.Framing
