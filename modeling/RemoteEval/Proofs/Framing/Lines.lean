import Mathlib.Data.List.SplitBy
import RemoteEval.Proofs.Framing.Chunks

/-!
Line breaks and the decoder. Whatever is pending when a line break comes in, an open form, an open
string, stray output or a line that is being thrown away, draining takes the buffer to its end and
leaves the decoder as a fresh one is. So a stream is read line by line: each line gives what it
gives on its own, in whichever pieces it comes in.
-/
namespace RemoteEval.Framing.Decoder

/-- The last byte that has come in is a line break: it ends the buffer, or has been used up and
the line that was thrown away, if any, with it. -/
structure AtLineEnd (d : Decoder) : Prop where
  synced : d.Synced
  ends : ∀ b ∈ d.buffer.getLast?, b = lineBreak
  kept : d.buffer = [] → d.discarding = false

theorem getLast?_of_suffix {tail bytes : List UInt8} (h : tail <:+ bytes) (hne : tail ≠ []) :
    bytes.getLast? = tail.getLast? := by
  obtain ⟨front, rfl⟩ := h
  exact List.getLast?_append_of_ne_nil front hne

theorem ends_of_suffix {tail bytes : List UInt8} (h : ∀ b ∈ bytes.getLast?, b = lineBreak)
    (htail : tail <:+ bytes) : ∀ b ∈ tail.getLast?, b = lineBreak := by
  intro b hb
  have hne : tail ≠ [] := by
    rintro rfl
    simp at hb
  exact h b (getLast?_of_suffix htail hne ▸ hb)

theorem lineBreak_mem_of_ends {bytes : List UInt8} (h : ∀ b ∈ bytes.getLast?, b = lineBreak)
    (hne : bytes ≠ []) : lineBreak ∈ bytes := by
  have hlast := h (bytes.getLast hne) (List.getLast?_eq_some_getLast hne)
  exact hlast ▸ List.getLast_mem hne

/-- Bytes that end with a line break have no unfinished line, so none that is too long. -/
theorem tailsWithin_of_ends {bytes : List UInt8} (bound : Nat)
    (h : ∀ b ∈ bytes.getLast?, b = lineBreak) : TailsWithin bound bytes := by
  intro tail htail hbreak
  by_cases hne : tail = []
  · simp [hne]
  · exact absurd (lineBreak_mem_of_ends (ends_of_suffix h htail) hne) hbreak

theorem atLineEnd_feed {d : Decoder} (h : d.Synced) {bytes : List UInt8}
    (hbytes : bytes.getLast? = some lineBreak) : (d.feed bytes).AtLineEnd := by
  have hne : bytes ≠ [] := by
    rintro rfl
    simp at hbytes
  refine ⟨h.feed bytes, ?_, fun hnil => absurd (List.append_eq_nil_iff.1 hnil).2 hne⟩
  intro b hb
  change (d.buffer ++ bytes).getLast? = some b at hb
  rw [List.getLast?_append_of_ne_nil _ hne, hbytes] at hb
  exact (Option.some.inj hb).symm

theorem AtLineEnd.next_kept {d : Decoder} (h : d.AtLineEnd) : d.next.2.discarding = false := by
  refine Decoder.next_kept h.synced ?_ (tailsWithin_of_ends d.bound h.ends)
  intro hdiscarding
  apply lineBreak_mem_of_ends h.ends
  intro hnil
  simp [h.kept hnil] at hdiscarding

theorem AtLineEnd.next {d : Decoder} (h : d.AtLineEnd) : d.next.2.AtLineEnd where
  synced := h.synced.next
  ends := ends_of_suffix h.ends (next_follows d).suffix
  kept _ := h.next_kept

theorem AtLineEnd.nextAtEnd {d : Decoder} (h : d.AtLineEnd) : d.nextAtEnd.2.AtLineEnd := by
  have hafter := h.next
  have hkept := h.next_kept
  unfold Decoder.nextAtEnd
  split
  · next hsome => rwa [hsome] at hafter
  · next hnone =>
    rw [hnone] at hafter hkept
    split
    · exact hafter
    · exact ⟨.idle rfl, by simp, fun _ => hkept⟩

theorem keepsLines_atLineEnd : KeepsLines AtLineEnd :=
  ⟨AtLineEnd.synced, AtLineEnd.next, AtLineEnd.next_kept⟩

theorem AtLineEnd.drain {d : Decoder} (h : d.AtLineEnd) : d.drain.2.AtLineEnd :=
  drain_of_next AtLineEnd.next h

/-- While the buffer ends with a line break, there is a response in it unless it is blank. -/
theorem nextKept_none_buffer {d e : Decoder} (hscan : d.scan = {})
    (hends : ∀ b ∈ d.buffer.getLast?, b = lineBreak) (h : d.nextKept = (none, e)) :
    e.buffer = [] := by
  unfold nextKept at h
  rw [if_pos (by rw [hscan]; rfl)] at h
  split at h
  · cases h
    rfl
  · next b rest hrest =>
    have htail := hrest ▸ List.dropWhile_suffix (l := d.buffer) isBlankByte
    have hbreak := lineBreak_mem_of_ends (ends_of_suffix hends htail) (List.cons_ne_nil b rest)
    split at h
    · obtain ⟨scan, hpass, -, -⟩ := nextForm_none h
      simp only [hscan] at hpass
      exact absurd hbreak (Scan.lineBreak_not_mem hpass)
    · obtain ⟨hstray, -, -⟩ := nextStray_none h
      exact absurd hbreak (lineBreak_not_mem_of_stray hstray)

theorem AtLineEnd.buffer_of_none {d e : Decoder} (h : d.AtLineEnd) (hnext : d.next = (none, e)) :
    e.buffer = [] := by
  rw [← next_forget h.synced] at hnext
  cases hdiscarding : d.discarding with
  | false =>
    rw [next_of_kept (d := d.forget) hdiscarding] at hnext
    exact nextKept_none_buffer (d := d.forget) rfl h.ends hnext
  | true =>
    cases hrest : d.buffer.dropWhile fun b => b != lineBreak with
    | nil =>
      rw [next_of_line_open (d := d.forget) hdiscarding hrest] at hnext
      cases hnext
      rfl
    | cons b rest =>
      rw [next_of_line_ended (d := d.forget) hdiscarding hrest] at hnext
      have hline := List.dropWhile_suffix (l := d.buffer) fun b => b != lineBreak
      rw [hrest] at hline
      exact nextKept_none_buffer (d := { d.forget with buffer := rest, discarding := false }) rfl
        (ends_of_suffix h.ends ((List.suffix_cons b rest).trans hline)) hnext

theorem Synced.scan_of_empty {d : Decoder} (h : d.Synced) (hempty : d.buffer = []) :
    d.scan = {} := by
  cases h with
  | idle hscan => exact hscan
  | inside hkept hstart hpass => simp [hempty] at hstart

/-- After a line break, once all responses have been taken out, the decoder is as new. -/
theorem AtLineEnd.drain_eq {d : Decoder} (h : d.AtLineEnd) : d.drain.2 = { bound := d.bound } := by
  have hafter := h.drain
  have hempty : d.drain.2.buffer = [] := hafter.buffer_of_none (next_drain d)
  have hscan := hafter.synced.scan_of_empty hempty
  have hkept := hafter.kept hempty
  have hbound := (drain_follows d).bound_eq
  cases hdrained : d.drain.2 with
  | mk bound buffer scan discarding =>
    simp only [hdrained] at hempty hscan hkept hbound
    rw [hempty, hscan, hkept, hbound]

def performAll (d : Decoder) (calls : List Call) : Decoder :=
  calls.foldl (fun d call => (d.perform call).2) d

def fed (calls : List Call) : List UInt8 :=
  calls.flatMap fun
    | .feed bytes => bytes
    | .next => []
    | .nextAtEnd => []

theorem performAll_concat (d : Decoder) (calls : List Call) (call : Call) :
    d.performAll (calls ++ [call]) = ((d.performAll calls).perform call).2 := by
  simp [performAll]

theorem Synced.performAll {d : Decoder} (h : d.Synced) (calls : List Call) :
    (d.performAll calls).Synced := by
  induction calls generalizing d with
  | nil => exact h
  | cons call calls ih => exact ih (h.perform call)

theorem perform_bound (d : Decoder) (call : Call) : (d.perform call).2.bound = d.bound := by
  cases call with
  | feed bytes => rfl
  | next => exact (next_follows d).bound_eq
  | nextAtEnd =>
    have hbound := (next_follows d).bound_eq
    change d.nextAtEnd.2.bound = d.bound
    unfold Decoder.nextAtEnd
    split
    · next hsome => rwa [hsome] at hbound
    · next hnone =>
      rw [hnone] at hbound
      split <;> exact hbound

theorem performAll_bound (d : Decoder) (calls : List Call) :
    (d.performAll calls).bound = d.bound := by
  induction calls generalizing d with
  | nil => rfl
  | cons call calls ih => exact (ih _).trans (perform_bound d call)

/-- The last use that brought bytes in brought a line break last, and no other use undoes that. -/
theorem atLineEnd_performAll {d : Decoder} (h : d.Synced) {calls : List Call}
    (hfed : (fed calls).getLast? = some lineBreak) : (d.performAll calls).AtLineEnd := by
  induction calls using List.reverseRecOn with
  | nil => simp [fed] at hfed
  | append_singleton calls call ih =>
    rw [performAll_concat]
    simp only [fed, List.flatMap_append, List.flatMap_singleton] at hfed
    cases call with
    | feed bytes =>
      by_cases hbytes : bytes = []
      · subst hbytes
        have hsame : (d.performAll calls).feed [] = d.performAll calls := by simp [Decoder.feed]
        change ((d.performAll calls).feed []).AtLineEnd
        rw [hsame]
        exact ih (by simpa [fed] using hfed)
      · rw [List.getLast?_append_of_ne_nil _ hbytes] at hfed
        exact atLineEnd_feed (h.performAll calls) hfed
    | next => exact (ih (by simpa [fed] using hfed)).next
    | nextAtEnd => exact (ih (by simpa [fed] using hfed)).nextAtEnd

theorem readAll_append (d : Decoder) (first second : List (List UInt8)) :
    d.readAll (first ++ second) =
      ((d.readAll first).1 ++ ((d.readAll first).2.readAll second).1,
        ((d.readAll first).2.readAll second).2) := by
  induction first generalizing d with
  | nil => rfl
  | cons chunk chunks ih => simp only [List.cons_append, readAll_cons, ih, List.append_assoc]

theorem Synced.drain {d : Decoder} (h : d.Synced) : d.drain.2.Synced := drain_of_next Synced.next h

theorem Synced.readAll {d : Decoder} (h : d.Synced) (chunks : List (List UInt8)) :
    (d.readAll chunks).2.Synced := by
  induction chunks generalizing d with
  | nil => exact h
  | cons chunk chunks ih => exact ih (h.feed chunk).drain

theorem readAll_bound (d : Decoder) (chunks : List (List UInt8)) :
    (d.readAll chunks).2.bound = d.bound := by
  induction chunks generalizing d with
  | nil => rfl
  | cons chunk chunks ih => exact (ih _).trans (drain_follows (d.feed chunk)).bound_eq

/-- Chunks that end with a line break leave the decoder as new. -/
theorem readAll_of_ends {d : Decoder} (h : d.Synced) {chunks : List (List UInt8)}
    (hends : chunks.flatten.getLast? = some lineBreak) :
    (d.readAll chunks).2 = { bound := d.bound } := by
  induction chunks using List.reverseRecOn with
  | nil => simp at hends
  | append_singleton chunks chunk ih =>
    simp only [List.flatten_append, List.flatten_singleton] at hends
    rw [readAll_append]
    change ((d.readAll chunks).2.feed chunk).drain.2 = _
    by_cases hchunk : chunk = []
    · subst hchunk
      rw [ih (by simpa using hends)]
      exact congrArg Prod.snd (drain_of_none (next_fresh d.bound))
    · rw [List.getLast?_append_of_ne_nil _ hchunk] at hends
      rw [(atLineEnd_feed (h.readAll chunks) hends).drain_eq]
      exact congrArg (fun bound => ({ bound } : Decoder)) (readAll_bound d chunks)

def cutBehindBreaks (bytes : List UInt8) : List (List UInt8) :=
  bytes.splitBy fun b _ => b != lineBreak

/-- The lines of a stream that comes in chunk by chunk, each in the pieces it comes in. Every line
ends with its line break, but the last one may be unfinished. -/
def linesOf (chunks : List (List UInt8)) : List (List (List UInt8)) :=
  (chunks.flatMap cutBehindBreaks).splitBy fun piece _ => piece.getLast? != some lineBreak

theorem cutBehindBreaks_isChain (bytes : List UInt8) :
    (cutBehindBreaks bytes).IsChain fun piece _ => piece.getLast? = some lineBreak := by
  refine (List.isChain_getLast_head_splitBy _ bytes).imp ?_
  rintro piece next ⟨hpiece, -, hlast⟩
  simp only [bne_eq_false_iff_eq] at hlast
  rw [List.getLast?_eq_some_getLast hpiece, hlast]

theorem linesOf_isChain (chunks : List (List UInt8)) :
    (linesOf chunks).IsChain fun line _ => line.flatten.getLast? = some lineBreak := by
  refine (List.isChain_getLast_head_splitBy _ _).imp ?_
  rintro line next ⟨hline, -, hlast⟩
  simp only [bne_eq_false_iff_eq] at hlast
  have hne : line.getLast hline ≠ [] := by
    intro hnil
    simp [hnil] at hlast
  have hflat : line.flatten = line.dropLast.flatten ++ line.getLast hline := by
    rw [← List.flatten_concat, List.dropLast_concat_getLast]
  rw [hflat, List.getLast?_append_of_ne_nil _ hne, hlast]

/-- Pieces of which all but the last end with a line break are read like one chunk. -/
theorem readAll_pieces {d : Decoder} (hsynced : d.Synced) (hempty : d.next = (none, d))
    {pieces : List (List UInt8)}
    (hbreaks : pieces.IsChain fun piece _ => piece.getLast? = some lineBreak) :
    d.readAll pieces = (d.feed pieces.flatten).drain := by
  induction pieces generalizing d with
  | nil =>
    have hsame : d.feed [] = d := by simp [feed]
    rw [List.flatten_nil, hsame, drain_of_none hempty]
    rfl
  | cons piece pieces ih =>
    have hsplit : d.feed (piece :: pieces).flatten = (d.feed piece).feed pieces.flatten := by
      simp [feed]
    rw [hsplit, readAll_cons, ih (hsynced.feed piece).drain (next_drain _) hbreaks.tail]
    cases pieces with
    | nil =>
      have hsame : ∀ e : Decoder, e.feed [] = e := by simp [feed]
      simp only [List.flatten_nil, hsame, drain_of_none (next_drain (d.feed piece)),
        List.append_nil]
    | cons second pieces =>
      have hpiece : (d.feed piece).AtLineEnd :=
        atLineEnd_feed hsynced (List.isChain_cons_cons.1 hbreaks).1
      rw [drain_feed keepsLines_atLineEnd hpiece]

/-- A chunk may be cut behind its line breaks. -/
theorem readAll_cut {d : Decoder} (hsynced : d.Synced) (hempty : d.next = (none, d))
    (chunks : List (List UInt8)) :
    d.readAll (chunks.flatMap cutBehindBreaks) = d.readAll chunks := by
  induction chunks generalizing d with
  | nil => rfl
  | cons chunk chunks ih =>
    have hchunk : d.readAll (cutBehindBreaks chunk) = (d.feed chunk).drain := by
      rw [readAll_pieces hsynced hempty (cutBehindBreaks_isChain chunk)]
      exact congrArg (fun bytes => (d.feed bytes).drain) (List.flatten_splitBy _ chunk)
    rw [List.flatMap_cons, readAll_append, hchunk, readAll_cons,
      ih (hsynced.feed chunk).drain (next_drain _)]

/-- Lines are read one by one, each as if it were the first. -/
theorem readAll_lines (bound : Nat) {lines : List (List (List UInt8))}
    (hbreaks : lines.IsChain fun line _ => line.flatten.getLast? = some lineBreak) :
    (Decoder.readAll { bound } lines.flatten).1 =
      lines.flatMap fun line => (Decoder.readAll { bound } line).1 := by
  induction lines with
  | nil => rfl
  | cons line lines ih =>
    rw [List.flatten_cons, List.flatMap_cons, readAll_append, ← ih hbreaks.tail]
    cases lines with
    | nil => simp [readAll]
    | cons second lines =>
      have hline := (List.isChain_cons_cons.1 hbreaks).1
      rw [readAll_of_ends (synced_fresh bound) hline]

theorem forall_mem_dropLast_of_isChain {α : Type} {p : α → Prop} {items : List α}
    (h : items.IsChain fun a _ => p a) : ∀ a ∈ items.dropLast, p a := by
  induction items with
  | nil => simp
  | cons a items ih =>
    cases items with
    | nil => simp
    | cons b items =>
      intro c hc
      rw [List.dropLast_cons_cons, List.mem_cons] at hc
      rcases hc with rfl | hc
      · exact (List.isChain_cons_cons.1 h).1
      · exact ih h.tail c hc

theorem lineBreak_not_mem_dropLast {bytes piece : List UInt8} (h : piece ∈ cutBehindBreaks bytes) :
    lineBreak ∉ piece.dropLast := by
  intro hbreak
  have hchain : piece.IsChain fun b _ => (b != lineBreak) = true := List.isChain_of_mem_splitBy h
  have hinside := forall_mem_dropLast_of_isChain hchain lineBreak hbreak
  simp at hinside

theorem lineBreak_not_mem_of_getLast? {piece : List UInt8} (hinside : lineBreak ∉ piece.dropLast)
    (hlast : piece.getLast? ≠ some lineBreak) : lineBreak ∉ piece := by
  by_cases hne : piece = []
  · simp [hne]
  · rw [List.getLast?_eq_some_getLast hne] at hlast
    rw [← List.dropLast_concat_getLast hne]
    simp only [List.mem_append, List.mem_singleton, not_or]
    exact ⟨hinside, fun h => hlast (congrArg some h.symm)⟩

/-- A line has its line break at its end and nowhere else. -/
theorem lineBreak_not_mem_line {chunks line : List (List UInt8)} (h : line ∈ linesOf chunks) :
    lineBreak ∉ line.flatten.dropLast := by
  have hpieces : ∀ piece ∈ line, piece ≠ [] ∧ lineBreak ∉ piece.dropLast := by
    intro piece hpiece
    have hmem : piece ∈ chunks.flatMap cutBehindBreaks := by
      rw [← List.flatten_splitBy (fun piece _ => piece.getLast? != some lineBreak)
        (chunks.flatMap cutBehindBreaks)]
      exact List.mem_flatten.2 ⟨line, h, hpiece⟩
    obtain ⟨chunk, -, hcut⟩ := List.mem_flatMap.1 hmem
    exact ⟨List.ne_nil_of_mem_splitBy hcut, lineBreak_not_mem_dropLast hcut⟩
  have hne : line ≠ [] := List.ne_nil_of_mem_splitBy h
  have hchain : line.IsChain fun piece _ => (piece.getLast? != some lineBreak) = true :=
    List.isChain_of_mem_splitBy h
  have hflat : line.flatten.dropLast =
      line.dropLast.flatten ++ (line.getLast hne).dropLast := by
    conv => lhs; rw [← List.dropLast_concat_getLast hne, List.flatten_concat]
    exact List.dropLast_append_of_ne_nil (hpieces _ (List.getLast_mem hne)).1
  rw [hflat, List.mem_append, List.mem_flatten]
  rintro (⟨piece, hpiece, hbreak⟩ | hbreak)
  · have hinner := forall_mem_dropLast_of_isChain hchain piece hpiece
    have hinside := (hpieces piece (List.dropLast_subset line hpiece)).2
    exact lineBreak_not_mem_of_getLast? hinside (by simpa using hinner) hbreak
  · exact (hpieces _ (List.getLast_mem hne)).2 hbreak

theorem flatten_linesOf (chunks : List (List UInt8)) :
    (linesOf chunks).flatten.flatten = chunks.flatten := by
  rw [linesOf, List.flatten_splitBy]
  induction chunks with
  | nil => rfl
  | cons chunk chunks ih =>
    rw [List.flatMap_cons, List.flatten_append, List.flatten_cons, ih, cutBehindBreaks,
      List.flatten_splitBy]

/-- A line break puts a decoder in step again, whatever it has been used for: once the responses
are taken out it is as new. So a stream gives what its lines give, each read on its own in the
pieces it comes in. -/
theorem lines_are_read_alone (bound : Nat) :
    (∀ calls : List Call, (fed calls).getLast? = some lineBreak →
      (performAll { bound } calls).drain.2 = { bound }) ∧
    (∀ (calls : List Call) (chunks : List (List UInt8)),
      chunks.flatten.getLast? = some lineBreak →
        ((performAll { bound } calls).readAll chunks).2 = { bound }) ∧
    ∀ chunks : List (List UInt8),
      (linesOf chunks).flatten.flatten = chunks.flatten ∧
      (linesOf chunks).IsChain (fun line _ => line.flatten.getLast? = some lineBreak) ∧
      (∀ line ∈ linesOf chunks, lineBreak ∉ line.flatten.dropLast) ∧
      (Decoder.readAll { bound } chunks).1 =
        (linesOf chunks).flatMap fun line => (Decoder.readAll { bound } line).1 := by
  have hsynced := synced_fresh bound
  refine ⟨fun calls hfed => ?_, fun calls chunks hends => ?_, fun chunks => ?_⟩
  · rw [(atLineEnd_performAll hsynced hfed).drain_eq, performAll_bound]
  · rw [readAll_of_ends (hsynced.performAll calls) hends, performAll_bound]
  · refine ⟨flatten_linesOf chunks, linesOf_isChain chunks, fun _ => lineBreak_not_mem_line, ?_⟩
    rw [← readAll_lines bound (linesOf_isChain chunks), linesOf, List.flatten_splitBy,
      readAll_cut hsynced (next_fresh bound)]

/-- A break behind a backslash in an open string, and one that ends a line that is thrown away. -/
theorem lines_are_read_alone_when_broken :
    (fed [.feed [0x28, 0x22, 0x5c], .next, .feed [0x0a]]).getLast? = some lineBreak ∧
      (performAll { bound := 9 } [.feed [0x28, 0x22, 0x5c], .next, .feed [0x0a]]).drain.2 =
        { bound := 9 } ∧
      ([[0x79], [0x79, 0x0a]] : List (List UInt8)).flatten.getLast? = some lineBreak ∧
      ((performAll { bound := 2 } [.feed [0x78, 0x78, 0x78], .next]).readAll
        [[0x79], [0x79, 0x0a]]).2 = { bound := 2 } :=
  ⟨by decide, (lines_are_read_alone 9).1 _ (by decide), by decide,
    (lines_are_read_alone 2).2.1 _ _ (by decide)⟩

end RemoteEval.Framing.Decoder
