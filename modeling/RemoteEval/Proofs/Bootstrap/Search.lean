import Mathlib.Data.List.DropRight
import Mathlib.Data.List.Infix
import RemoteEval.Bootstrap

/-!
Looking for the prompt is searching the whole output for it. An occurrence that is not complete yet
starts within as many bytes at the end of the output as the prompt has without its last one; so
nothing is missed when all bytes before these are forgotten, wherever the output is cut. The prompt
is found in the read that completes its first occurrence.
-/
namespace RemoteEval

theorem flatten_pieces (size : Nat) (bytes : List UInt8) :
    (pieces size bytes).flatten = bytes := by
  fun_induction pieces size bytes with
  | case1 => rfl
  | case2 bytes h hne => exact List.flatten_singleton
  | case3 bytes h ih => rw [List.flatten_cons, ih, List.take_append_drop]

/-- Bytes that fit into one piece are not cut. -/
theorem pieces_of_length_le {size : Nat} {bytes : List UInt8} (hne : bytes ≠ [])
    (h : bytes.length ≤ size) : pieces size bytes = [bytes] := by
  have hsize : 0 < size := by
    have hpos := List.length_pos_iff.2 hne
    omega
  have hcut : ¬ (size = 0 ∨ bytes = []) := by
    rintro (hzero | hnil)
    · omega
    · exact hne hnil
  rw [pieces, dif_neg hcut, List.take_of_length_le h, List.drop_of_length_le h, pieces]
  simp only [or_true, if_true, dite_true]

namespace Bootstrap

def output (pieces : List Arrival) : List UInt8 := pieces.flatMap Arrival.bytes

theorem output_append (front back : List Arrival) :
    output (front ++ back) = output front ++ output back := List.flatMap_append

theorem output_concat (front : List Arrival) (a : Arrival) :
    output (front ++ [a]) = output front ++ a.bytes := by
  simp only [output, List.flatMap_append, List.flatMap_singleton]

theorem output_mono {front back : List Arrival} (h : front <+: back) :
    output front <+: output back := by
  obtain ⟨rest, rfl⟩ := h
  rw [output_append]
  exact List.prefix_append _ _

def lastTime (pieces : List Arrival) : Nat := (pieces.getLast?.map Arrival.time).getD 0

theorem occurs_iff (prompt bytes : List UInt8) :
    occurs prompt bytes = true ↔ prompt <:+: bytes := by
  induction bytes with
  | nil => simp only [occurs, List.isEmpty_iff, List.infix_nil]
  | cons b rest ih =>
    simp only [occurs, Bool.or_eq_true, List.isPrefixOf_iff_prefix, ih, List.infix_cons_iff]

/-- The end of what is kept is the end of it all. -/
theorem rtake_rtake_append (before piece : List UInt8) (n : Nat) :
    (before.rtake n ++ piece).rtake n = (before ++ piece).rtake n := by
  simp only [List.rtake_eq_reverse_take_reverse, List.reverse_append, List.reverse_reverse,
    List.take_append, List.take_take]
  rw [Nat.min_eq_left (Nat.sub_le n piece.reverse.length)]

theorem length_rtake_le (bytes : List UInt8) (n : Nat) : (bytes.rtake n).length ≤ n := by
  simp only [List.rtake, List.length_drop]
  omega

/-- An occurrence that a piece completes starts within the tail of the output before it. -/
theorem infix_rtake_append_iff {prompt before : List UInt8} (hmissing : ¬ prompt <:+: before)
    (piece : List UInt8) :
    prompt <:+: before.rtake (prompt.length - 1) ++ piece ↔ prompt <:+: before ++ piece := by
  have hsplit := List.take_append_drop (before.length - (prompt.length - 1)) before
  constructor
  · intro h
    rw [← hsplit, List.append_assoc]
    exact h.trans (List.suffix_append _ _).isInfix
  · rintro ⟨front, back, heq⟩
    have hahead : before.length < front.length + prompt.length := by
      by_contra hbehind
      apply hmissing
      have hfront : front ++ prompt <+: before := by
        refine List.prefix_of_prefix_length_le ⟨back, heq⟩ (List.prefix_append before piece) ?_
        rw [List.length_append]
        omega
      exact (List.suffix_append front prompt).isInfix.trans hfront.isInfix
    have hcut : before.length - (prompt.length - 1) ≤ front.length := by omega
    refine ⟨front.drop (before.length - (prompt.length - 1)), back, ?_⟩
    have hdrop := congrArg (List.drop (before.length - (prompt.length - 1))) heq
    rw [List.append_assoc, List.drop_append_of_le_length hcut,
      List.drop_append_of_le_length (Nat.sub_le _ _)] at hdrop
    rw [List.append_assoc]
    exact hdrop

/-- One look finds the prompt exactly if the piece completes it, and keeps the tail otherwise. -/
theorem look_eq {prompt before : List UInt8} (hmissing : ¬ prompt <:+: before)
    (piece : List UInt8) :
    look prompt (before.rtake (prompt.length - 1)) piece =
      if prompt <:+: before ++ piece then none
      else some ((before ++ piece).rtake (prompt.length - 1)) := by
  unfold look
  simp only [occurs_iff, infix_rtake_append_iff hmissing]
  by_cases hfound : prompt <:+: before ++ piece
  · simp only [hfound, if_true]
  · simp only [hfound, if_false]
    exact congrArg some (rtake_rtake_append before piece (prompt.length - 1))

/-- Reads without the prompt leave the tail of all output so far. -/
theorem watchFrom_append {prompt before : List UInt8} {read : List Arrival}
    (hmissing : ¬ prompt <:+: before ++ output read) (later : List Arrival) :
    watchFrom prompt (before.rtake (prompt.length - 1)) (read ++ later) =
      watchFrom prompt ((before ++ output read).rtake (prompt.length - 1)) later := by
  induction read generalizing before with
  | nil => rw [List.nil_append, output, List.flatMap_nil, List.append_nil]
  | cons a read ih =>
    rw [output, List.flatMap_cons, ← List.append_assoc] at hmissing ⊢
    have hpiece : ¬ prompt <:+: before ++ a.bytes := by
      intro h
      exact hmissing (h.trans (List.prefix_append _ _).isInfix)
    have hbefore : ¬ prompt <:+: before := by
      intro h
      exact hpiece (h.trans (List.prefix_append _ _).isInfix)
    rw [List.cons_append, watchFrom, look_eq hbefore, if_neg hpiece]
    exact ih hmissing

theorem watch_append {prompt : List UInt8} {read : List Arrival}
    (hmissing : ¬ prompt <:+: output read) (later : List Arrival) :
    watch prompt (read ++ later) =
      watchFrom prompt ((output read).rtake (prompt.length - 1)) later := by
  have hprompt : prompt ≠ [] := by
    rintro rfl
    exact hmissing (List.nil_infix)
  rw [watch, List.isEmpty_eq_false_iff.2 hprompt, if_neg Bool.false_ne_true]
  have hstart : ¬ prompt <:+: [] ++ output read := hmissing
  have hrun := watchFrom_append hstart later
  rw [List.nil_append, List.rtake_nil] at hrun
  exact hrun

/-- The prompt occurs in what is read, and did not before the last read. -/
structure Completes (prompt : List UInt8) (read : List Arrival) : Prop where
  found : prompt <:+: output read
  first : ∀ earlier, earlier <+: read → earlier ≠ read → ¬ prompt <:+: output earlier

/-- Output in which the prompt occurs has a part that completes it. -/
theorem exists_completes {prompt : List UInt8} {reads : List Arrival}
    (h : prompt <:+: output reads) :
    ∃ read rest, reads = read ++ rest ∧ Completes prompt read := by
  induction reads using List.reverseRecOn with
  | nil =>
    refine ⟨[], [], rfl, h, ?_⟩
    intro earlier hearlier hne
    exact absurd (List.prefix_nil.1 hearlier) hne
  | append_singleton front a ih =>
    by_cases hfront : prompt <:+: output front
    · obtain ⟨read, rest, rfl, hread⟩ := ih hfront
      exact ⟨read, rest ++ [a], List.append_assoc _ _ _, hread⟩
    · refine ⟨front ++ [a], [], (List.append_nil _).symm, h, ?_⟩
      intro earlier hearlier hne hfound
      have hpart : earlier <+: front := by
        rcases List.prefix_concat_iff.1 hearlier with heq | hpart
        · exact absurd heq hne
        · exact hpart
      exact hfront (hfound.trans (output_mono hpart).isInfix)

/-- Watching stops behind the read that completes the prompt. -/
theorem Completes.watch_eq {prompt : List UInt8} {read : List Arrival}
    (h : Completes prompt read) (rest : List Arrival) :
    watch prompt (read ++ rest) = .prompt (lastTime read) rest := by
  rcases List.eq_nil_or_concat read with rfl | ⟨front, a, rfl⟩
  · have hprompt : prompt = [] := List.infix_nil.1 h.found
    rw [hprompt]
    rfl
  · rw [List.concat_eq_append] at h ⊢
    have hfront : ¬ prompt <:+: output front := by
      apply h.first
      · exact List.prefix_append front [a]
      · simp
    have hfound := h.found
    rw [output_concat] at hfound
    rw [List.append_assoc, watch_append hfront, List.singleton_append, watchFrom, look_eq hfront,
      if_pos hfound]
    simp only [lastTime, List.getLast?_concat, Option.map_some, Option.getD_some]

theorem watch_of_missing {prompt : List UInt8} {reads : List Arrival}
    (h : ¬ prompt <:+: output reads) :
    watch prompt reads = .nothing ((output reads).rtake (prompt.length - 1)) := by
  have hwatch := watch_append h []
  rwa [List.append_nil] at hwatch

theorem watch_eq_prompt_iff {prompt : List UInt8} {reads rest : List Arrival} {time : Nat} :
    watch prompt reads = .prompt time rest ↔
      ∃ read, reads = read ++ rest ∧ Completes prompt read ∧ time = lastTime read := by
  constructor
  · intro h
    by_cases hfound : prompt <:+: output reads
    · obtain ⟨read, others, rfl, hread⟩ := exists_completes hfound
      rw [hread.watch_eq] at h
      cases h
      exact ⟨read, rfl, hread, rfl⟩
    · rw [watch_of_missing hfound] at h
      cases h
  · rintro ⟨read, rfl, hread, rfl⟩
    exact hread.watch_eq rest

theorem output_reads (s : Schedule) : output s.reads = output s.arrivals := by
  simp only [output, Schedule.reads, List.flatMap_assoc, List.flatMap_map, List.flatMap_id',
    flatten_pieces]

/-- Pieces that one read takes are read as they arrive. -/
theorem reads_of_short {s : Schedule}
    (h : ∀ a ∈ s.arrivals, a.bytes ≠ [] ∧ a.bytes.length ≤ readSize) : s.reads = s.arrivals := by
  have hone : ∀ a ∈ s.arrivals, (pieces readSize a.bytes).map (Arrival.mk a.time) = [a] := by
    intro a ha
    obtain ⟨hne, hshort⟩ := h a ha
    rw [pieces_of_length_le hne hshort, List.map_singleton]
  rw [Schedule.reads, List.flatMap_congr hone, List.flatMap_singleton']

theorem endError_eq_outputEnded_iff {fault : Option Fault} :
    endError fault = .outputEnded ↔ fault = none := by
  unfold endError
  cases fault <;> simp

theorem endError_eq_io_iff {fault : Option Fault} {why : Fault} :
    endError fault = .io why ↔ fault = some why := by
  unfold endError
  cases fault <;> simp

def result? (prompt : List UInt8) (s : Schedule) (fault : Option Fault) :
    Option (Except Error Unit) :=
  (wait prompt s fault).map Outcome.result

theorem wait_of_missing {prompt : List UInt8} {s : Schedule} {fault : Option Fault}
    (h : ¬ prompt <:+: output s.arrivals) :
    wait prompt s fault = s.ending.map fun time => ⟨time, .error (endError fault)⟩ := by
  rw [← output_reads] at h
  rw [wait, watch_of_missing h]

theorem wait_of_completes {prompt : List UInt8} {s : Schedule} {fault : Option Fault}
    {read rest : List Arrival} (hreads : s.reads = read ++ rest) (h : Completes prompt read) :
    wait prompt s fault = some ⟨lastTime read, .ok ()⟩ := by
  rw [wait, hreads, h.watch_eq]

theorem result?_eq (prompt : List UInt8) (s : Schedule) (fault : Option Fault) :
    result? prompt s fault =
      if prompt <:+: output s.arrivals then some (.ok ())
      else s.ending.map fun _ => .error (endError fault) := by
  by_cases hfound : prompt <:+: output s.arrivals
  · rw [if_pos hfound]
    rw [← output_reads] at hfound
    obtain ⟨read, rest, hreads, hread⟩ := exists_completes hfound
    rw [result?, wait_of_completes hreads hread, Option.map_some]
  · rw [if_neg hfound, result?, wait_of_missing hfound]
    cases s.ending <;> rfl

structure Searched (prompt : List UInt8) (s : Schedule) (fault : Option Fault) : Prop where
  found : result? prompt s fault = some (.ok ()) ↔ prompt <:+: output s.arrivals
  ended : result? prompt s fault = some (.error .outputEnded) ↔
    ¬ prompt <:+: output s.arrivals ∧ s.ending.isSome ∧ fault = none
  failed : ∀ why, result? prompt s fault = some (.error (.io why)) ↔
    ¬ prompt <:+: output s.arrivals ∧ s.ending.isSome ∧ fault = some why
  waiting : result? prompt s fault = none ↔ ¬ prompt <:+: output s.arrivals ∧ s.ending = none
  stops : ∀ time rest, watch prompt s.reads = .prompt time rest ↔
    ∃ read, s.reads = read ++ rest ∧ Completes prompt read ∧ time = lastTime read
  atOnce : prompt = [] → wait prompt s fault = some ⟨0, .ok ()⟩ ∧
    watch prompt s.reads = .prompt 0 s.reads
  kept : ∀ read later, s.reads = read ++ later → ¬ prompt <:+: output read →
    ∃ tail, watch prompt read = .nothing tail ∧ tail.length ≤ prompt.length - 1 ∧
      watch prompt s.reads = watchFrom prompt tail later
  /-- The same output cut in another way comes to the same. -/
  uncut : ∀ t : Schedule, output t.arrivals = output s.arrivals →
    t.ending.isSome = s.ending.isSome → result? prompt t fault = result? prompt s fault
  reads : (∀ a ∈ s.arrivals, a.bytes ≠ [] ∧ a.bytes.length ≤ readSize) → s.reads = s.arrivals

/-- Waiting for a prompt is searching the whole output for it, however that is cut into reads. -/
theorem prompt_is_found_by_search (prompt : List UInt8) (s : Schedule) (fault : Option Fault) :
    Searched prompt s fault where
  found := by
    rw [result?_eq]
    by_cases hfound : prompt <:+: output s.arrivals
    · simp only [hfound, if_true]
    · simp [hfound]
  ended := by
    rw [result?_eq]
    by_cases hfound : prompt <:+: output s.arrivals
    · simp [hfound]
    · simp [hfound, endError_eq_outputEnded_iff, Option.isSome_iff_exists]
  failed := by
    intro why
    rw [result?_eq]
    by_cases hfound : prompt <:+: output s.arrivals
    · simp [hfound]
    · simp [hfound, endError_eq_io_iff, Option.isSome_iff_exists]
  waiting := by
    rw [result?_eq]
    by_cases hfound : prompt <:+: output s.arrivals
    · simp [hfound]
    · simp [hfound]
  stops time rest := watch_eq_prompt_iff
  atOnce := by
    rintro rfl
    exact ⟨rfl, rfl⟩
  kept := by
    intro read later hreads hmissing
    refine ⟨_, watch_of_missing hmissing, length_rtake_le _ _, ?_⟩
    rw [hreads, watch_append hmissing]
  uncut := by
    intro t houtput hending
    rw [result?_eq, result?_eq, houtput]
    cases ht : t.ending <;> cases hs : s.ending <;> simp [ht, hs] at hending ⊢
  reads := reads_of_short

/-- A prompt that starts anew inside of itself, cut there. -/
example : watch [97, 97, 98] [⟨1, [97, 97]⟩, ⟨2, [97]⟩, ⟨3, [98]⟩, ⟨4, [10]⟩] =
    .prompt 3 [⟨4, [10]⟩] := by rfl

end Bootstrap

end RemoteEval
