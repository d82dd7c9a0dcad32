import RemoteEval.Proofs.Bootstrap.Search

/-!
Waiting for the prompt up to a deadline. What comes of it is decided by the output that arrives
before the deadline and by nothing else: the prompt if that holds it, at the time at which it is
complete; otherwise the end of the output, or what reading it fails with, if that comes before the
deadline; otherwise the deadline.
-/
namespace RemoteEval

/-- The milliseconds of a span are the fewest that are not less than it. -/
theorem Duration.ceilMillis_le_iff (d : Duration) (ms : Nat) :
    d.ceilMillis ≤ ms ↔ d.nanos ≤ ms * 1000000 := by
  unfold ceilMillis
  omega

namespace Bootstrap

/-- Pieces come in the order of their times, and none behind the end. -/
structure Schedule.Ordered (s : Schedule) : Prop where
  arrivals : s.arrivals.Pairwise fun a b => a.time ≤ b.time
  ending : ∀ time, s.ending = some time → ∀ a ∈ s.arrivals, a.time ≤ time

def Schedule.within (s : Schedule) (p : Nat → Bool) : Schedule where
  arrivals := s.arrivals.filter fun a => p a.time
  ending := s.ending.filter p

def UpTo (p : Nat → Bool) : Prop := ∀ earlier later, earlier ≤ later → p later = true →
  p earlier = true

theorem upTo_le (time : Nat) : UpTo fun t => decide (t ≤ time) := by
  intro earlier later hle hlater
  simp only [decide_eq_true_eq] at hlater ⊢
  omega

theorem inTime_iff (deadline time : Nat) :
    inTime deadline time = true ↔ time = 0 ∨ time < deadline := by
  simp only [inTime, Bool.or_eq_true, decide_eq_true_eq]

theorem upTo_inTime (deadline : Nat) : UpTo (inTime deadline) := by
  intro earlier later hle hlater
  rw [inTime_iff] at hlater ⊢
  omega

/-- Of ordered pieces, those up to some moment come first. -/
theorem filter_upTo {p : Nat → Bool} (hp : UpTo p) {pieces : List Arrival}
    (hordered : pieces.Pairwise fun a b => a.time ≤ b.time) :
    pieces.filter (fun a => p a.time) <+: pieces := by
  induction pieces with
  | nil => exact List.nil_prefix
  | cons a rest ih =>
    obtain ⟨hafter, hrest⟩ := List.pairwise_cons.1 hordered
    by_cases ha : p a.time = true
    · rw [List.filter_cons_of_pos (p := fun a : Arrival => p a.time) ha, List.prefix_cons_inj]
      exact ih hrest
    · have hlate : ∀ b ∈ a :: rest, ¬ p b.time = true := by
        intro b hb hearly
        rcases List.mem_cons.1 hb with rfl | hb
        · exact ha hearly
        · exact ha (hp _ _ (hafter b hb) hearly)
      rw [List.filter_eq_nil_iff.2 hlate]
      exact List.nil_prefix

theorem Schedule.Ordered.reads {s : Schedule} (h : s.Ordered) :
    s.reads.Pairwise fun a b => a.time ≤ b.time := by
  rw [Schedule.reads, List.pairwise_flatMap]
  refine ⟨fun a ha => ?_, h.arrivals.imp fun {a b} hle => ?_⟩
  · rw [List.pairwise_map]
    exact List.pairwise_of_forall fun _ _ => Nat.le_refl a.time
  · intro x hx y hy
    obtain ⟨_, -, rfl⟩ := List.mem_map.1 hx
    obtain ⟨_, -, rfl⟩ := List.mem_map.1 hy
    exact hle

/-- What is read at certain times are the pieces that arrive then. -/
theorem reads_within (s : Schedule) (p : Nat → Bool) :
    (s.within p).reads = s.reads.filter fun a => p a.time := by
  have hcut : ∀ (time : Nat) (cut : List (List UInt8)),
      ((cut.map (Arrival.mk time)).filter fun a => p a.time) =
        if p time then cut.map (Arrival.mk time) else [] := by
    intro time cut
    rw [List.filter_map]
    by_cases htime : p time = true
    · simp only [Function.comp_def, htime, List.filter_true, if_true]
    · simp only [Function.comp_def, htime, List.filter_false, List.map_nil, if_false,
        Bool.false_eq_true]
  unfold Schedule.reads Schedule.within
  simp only
  induction s.arrivals with
  | nil => rfl
  | cons a rest ih =>
    rw [List.flatMap_cons, List.filter_append, ← ih, hcut]
    by_cases ha : p a.time = true
    · rw [List.filter_cons_of_pos (p := fun a : Arrival => p a.time) ha, List.flatMap_cons,
        if_pos ha]
    · rw [List.filter_cons_of_neg (p := fun a : Arrival => p a.time) ha, if_neg ha,
        List.nil_append]

theorem lastTime_concat (front : List Arrival) (a : Arrival) : lastTime (front ++ [a]) = a.time := by
  simp only [lastTime, List.getLast?_concat, Option.map_some, Option.getD_some]

theorem lastTime_nil : lastTime [] = 0 := rfl

/-- A part of ordered pieces that comes first has come when its last piece has. -/
theorem time_le_lastTime {read rest : List Arrival}
    (hordered : (read ++ rest).Pairwise fun a b => a.time ≤ b.time) :
    ∀ a ∈ read, a.time ≤ lastTime read := by
  rcases List.eq_nil_or_concat read with rfl | ⟨front, last, rfl⟩
  · exact List.forall_mem_nil _
  · rw [List.concat_eq_append] at hordered ⊢
    have hfront := (List.pairwise_append.1 (List.pairwise_append.1 hordered).1).2.2
    rw [lastTime_concat, List.forall_mem_append, List.forall_mem_singleton]
    exact ⟨fun a ha => hfront a ha last (List.mem_singleton_self last), Nat.le_refl _⟩

/-- What comes first and has come up to some moment is among what happens up to then. -/
theorem prefix_filter_upTo {p : Nat → Bool} (hp : UpTo p) {read rest : List Arrival}
    (hordered : (read ++ rest).Pairwise fun a b => a.time ≤ b.time)
    (hlast : p (lastTime read) = true) : read <+: (read ++ rest).filter fun a => p a.time := by
  have hread : ∀ a ∈ read, p a.time = true := by
    intro a ha
    exact hp _ _ (time_le_lastTime hordered a ha) hlast
  rw [List.filter_append, List.filter_eq_self.2 hread]
  exact List.prefix_append _ _

/-- What has ended by some moment has all happened up to then. -/
theorem within_of_ended {s : Schedule} (h : s.Ordered) {p : Nat → Bool} (hp : UpTo p)
    {time : Nat} (hending : s.ending = some time) (htime : p time = true) : s.within p = s := by
  have harrivals : ∀ a ∈ s.arrivals, p a.time = true := by
    intro a ha
    exact hp _ _ (h.ending time hending a ha) htime
  rw [Schedule.within, List.filter_eq_self.2 harrivals, hending,
    Option.filter_some_pos htime, ← hending]

/-- What comes of waiting up to some moment comes of what happens up to then. -/
theorem wait_within {s : Schedule} (h : s.Ordered) (prompt : List UInt8) {p : Nat → Bool}
    (hp : UpTo p) (hstart : p 0 = true) (fault : Option Fault) :
    (wait prompt s fault).filter (fun outcome => p outcome.time) =
      wait prompt (s.within p) fault := by
  by_cases hfound : prompt <:+: output (s.within p).arrivals
  · -- The prompt is complete before the moment, and the reads behind that are left alone.
    rw [← output_reads] at hfound
    obtain ⟨read, rest, hreads, hread⟩ := exists_completes hfound
    rw [wait_of_completes hreads hread]
    rw [reads_within] at hreads
    obtain ⟨later, hlater⟩ := filter_upTo hp h.reads
    rw [hreads, List.append_assoc] at hlater
    rw [wait_of_completes hlater.symm hread]
    apply Option.filter_some_pos
    rcases List.eq_nil_or_concat read with rfl | ⟨front, a, rfl⟩
    · exact hstart
    · have ha : a ∈ s.reads.filter fun a => p a.time := by
        rw [hreads]
        simp
      rw [List.concat_eq_append, lastTime_concat]
      exact (List.mem_filter.1 ha).2
  · rw [wait_of_missing hfound]
    by_cases hall : prompt <:+: output s.arrivals
    · -- The prompt is complete after the moment, and the output ends later still.
      have hlate : s.ending.filter p = none := by
        rw [Option.filter_eq_none_iff]
        intro time hending htime
        rw [within_of_ended h hp hending htime] at hfound
        exact hfound hall
      rw [← output_reads] at hall
      obtain ⟨read, rest, hreads, hread⟩ := exists_completes hall
      rw [wait_of_completes hreads hread, Schedule.within, hlate, Option.map_none]
      apply Option.filter_some_neg
      rw [Bool.eq_false_iff]
      intro hlast
      have hordered := h.reads
      rw [hreads] at hordered
      have hpart := output_mono (prefix_filter_upTo hp hordered hlast)
      rw [← hreads, ← reads_within, output_reads] at hpart
      exact hfound (hread.found.trans hpart.isInfix)
    · rw [wait_of_missing hall, Schedule.within, Option.filter_map]
      rfl

def Schedule.outputBy (s : Schedule) (time : Nat) : List UInt8 :=
  output (s.arrivals.filter fun a => a.time ≤ time)

/-- The output that is there from the start or arrives before the deadline. -/
def Schedule.outputBefore (s : Schedule) (deadline : Nat) : List UInt8 :=
  output (s.arrivals.filter fun a => a.time = 0 ∨ a.time < deadline)

/-- The prompt is complete at the time of the read that completes it, and not before. -/
theorem Completes.least {prompt : List UInt8} {s : Schedule} (hordered : s.Ordered)
    {read rest : List Arrival} (hreads : s.reads = read ++ rest) (h : Completes prompt read) :
    prompt <:+: s.outputBy (lastTime read) ∧
      ∀ time < lastTime read, ¬ prompt <:+: s.outputBy time := by
  have hby : ∀ time, s.outputBy time = output (s.reads.filter fun a => a.time ≤ time) := by
    intro time
    have hwithin := reads_within s fun t => decide (t ≤ time)
    rw [← hwithin, output_reads]
    rfl
  have hsorted := hordered.reads
  rw [hreads] at hsorted
  constructor
  · rw [hby, hreads]
    have hpart := prefix_filter_upTo (upTo_le (lastTime read)) hsorted (by simp)
    exact h.found.trans (output_mono hpart).isInfix
  · intro time hearlier hfound
    rcases List.eq_nil_or_concat read with rfl | ⟨front, a, rfl⟩
    · rw [lastTime_nil] at hearlier
      omega
    · rw [List.concat_eq_append] at hreads hsorted h hearlier
      rw [lastTime_concat] at hearlier
      have hrest : ∀ b ∈ a :: rest, ¬ decide (b.time ≤ time) = true := by
        rw [List.append_assoc, List.pairwise_append] at hsorted
        intro b hb
        rw [decide_eq_true_eq]
        rcases List.mem_cons.1 hb with rfl | hb
        · omega
        · have hle := (List.pairwise_cons.1 hsorted.2.1).1 b hb
          omega
      rw [hby, hreads, List.append_assoc, List.singleton_append, List.filter_append,
        List.filter_eq_nil_iff.2 hrest, List.append_nil] at hfound
      have hfront : (front.filter fun b => decide (b.time ≤ time)) <+: front := by
        apply filter_upTo (upTo_le time)
        rw [List.append_assoc, List.pairwise_append] at hsorted
        exact hsorted.1
      refine h.first front (List.prefix_append front [a]) ?_ ?_
      · simp
      · exact hfound.trans (output_mono hfront).isInfix

structure Decided (prompt : List UInt8) (bound : Duration) (s : Schedule) (fault : Option Fault)
    (outcome : Outcome) : Prop where
  found : prompt <:+: s.outputBefore bound.ceilMillis →
    outcome.result = .ok () ∧ (outcome.time = 0 ∨ outcome.time < bound.ceilMillis) ∧
      prompt <:+: s.outputBy outcome.time ∧
      ∀ time < outcome.time, ¬ prompt <:+: s.outputBy time
  ended : ¬ prompt <:+: s.outputBefore bound.ceilMillis → fault = none →
    ∀ time, s.ending = some time → time = 0 ∨ time < bound.ceilMillis →
    outcome = ⟨time, .error .outputEnded⟩
  failed : ¬ prompt <:+: s.outputBefore bound.ceilMillis → ∀ why, fault = some why →
    ∀ time, s.ending = some time → time = 0 ∨ time < bound.ceilMillis →
    outcome = ⟨time, .error (.io why)⟩
  timedOut : ¬ prompt <:+: s.outputBefore bound.ceilMillis →
    (∀ time, s.ending = some time → 0 < time ∧ bound.ceilMillis ≤ time) →
    outcome = ⟨bound.ceilMillis, .error (.promptTimeout bound)⟩
  late : ∀ t : Schedule, t.Ordered →
    t.within (inTime bound.ceilMillis) = s.within (inTime bound.ceilMillis) →
    await prompt bound t fault = outcome
  deadline : ∀ ms, bound.ceilMillis ≤ ms ↔ bound.nanos ≤ ms * 1000000

theorem await_eq {s : Schedule} (h : s.Ordered) (prompt : List UInt8) (bound : Duration)
    (fault : Option Fault) :
    await prompt bound s fault = (wait prompt (s.within (inTime bound.ceilMillis)) fault).getD
      ⟨bound.ceilMillis, .error (.promptTimeout bound)⟩ := by
  rw [← wait_within h prompt (upTo_inTime bound.ceilMillis) rfl]
  rfl

theorem outputBefore_eq (s : Schedule) (deadline : Nat) :
    s.outputBefore deadline = output (s.within (inTime deadline)).arrivals := by
  unfold Schedule.outputBefore Schedule.within
  congr 2
  funext a
  rw [Bool.eq_iff_iff, inTime_iff, decide_eq_true_eq]

/-- Without the prompt it is the end of the output that counts, if that comes in time. -/
theorem await_of_missing {s : Schedule} (h : s.Ordered) {prompt : List UInt8} {bound : Duration}
    (hmissing : ¬ prompt <:+: s.outputBefore bound.ceilMillis) (fault : Option Fault) {time : Nat}
    (hending : s.ending = some time) (htime : time = 0 ∨ time < bound.ceilMillis) :
    await prompt bound s fault = ⟨time, .error (endError fault)⟩ := by
  rw [outputBefore_eq] at hmissing
  rw [← inTime_iff] at htime
  rw [await_eq h, wait_of_missing hmissing, Schedule.within, hending,
    Option.filter_some_pos htime, Option.map_some, Option.getD_some]

theorem decided {s : Schedule} (h : s.Ordered) (prompt : List UInt8) (bound : Duration)
    (fault : Option Fault) : Decided prompt bound s fault (await prompt bound s fault) where
  found := by
    intro hfound
    rw [outputBefore_eq, ← output_reads] at hfound
    obtain ⟨read, rest, hreads, hread⟩ := exists_completes hfound
    have hwait : wait prompt (s.within (inTime bound.ceilMillis)) fault = _ :=
      wait_of_completes hreads hread
    have hintime := wait_within h prompt (upTo_inTime bound.ceilMillis) rfl fault
    rw [hwait, Option.filter_eq_some_iff, inTime_iff] at hintime
    obtain ⟨later, hlater⟩ := filter_upTo (upTo_inTime bound.ceilMillis) h.reads
    rw [← reads_within, hreads, List.append_assoc] at hlater
    rw [await_eq h, hwait, Option.getD_some]
    exact ⟨rfl, hintime.2, hread.least h hlater.symm⟩
  ended := by
    rintro hmissing rfl time hending htime
    exact await_of_missing h hmissing none hending htime
  failed := by
    rintro hmissing why rfl time hending htime
    exact await_of_missing h hmissing (some why) hending htime
  timedOut := by
    intro hmissing hlate
    rw [outputBefore_eq] at hmissing
    have hnone : s.ending.filter (inTime bound.ceilMillis) = none := by
      rw [Option.filter_eq_none_iff]
      intro time hending htime
      rw [inTime_iff] at htime
      have := hlate time hending
      omega
    rw [await_eq h, wait_of_missing hmissing, Schedule.within, hnone, Option.map_none,
      Option.getD_none]
  late t ht hsame := by rw [await_eq h, await_eq ht, hsame]
  deadline := bound.ceilMillis_le_iff

/-- Starting a server types the command and a line break; what comes of it is decided by what comes
first of the prompt, the end of the output, at which reading may fail, and the deadline. -/
theorem first_event_decides (command prompt : String) (bound : Duration) (s : Schedule)
    (fault : Option Fault) (h : s.Ordered) :
    let sought := Text.Utf8.encode prompt.toList
    startServer command prompt bound (some s) fault =
        (command ++ "\n", (await sought bound s fault).result) ∧
      Decided sought bound s fault (await sought bound s fault) :=
  ⟨rfl, decided h _ bound fault⟩

/-- A prompt in two pieces, with more output and its end after the deadline. -/
theorem first_event_decides_between_pieces :
    let s : Schedule := ⟨[⟨0, [62, 106, 117]⟩, ⟨3, [108, 62]⟩, ⟨6, [10]⟩], some 8⟩
    s.Ordered ∧ startServer "go" "jul>" ⟨4500000⟩ (some s) = ("go\n", .ok ()) ∧
      (await (Text.Utf8.encode "jul>".toList) ⟨4500000⟩ s).time = 3 := by
  intro s
  have hordered : s.Ordered := by
    refine ⟨by decide, ?_⟩
    rintro _ ⟨⟩
    decide
  obtain ⟨hstart, hdecided⟩ := first_event_decides "go" "jul>" ⟨4500000⟩ s none hordered
  obtain ⟨hresult, -, hfound, hfirst⟩ := hdecided.found (by decide)
  have hearly : ∀ time < 3, ¬ Text.Utf8.encode "jul>".toList <:+: s.outputBy time := by decide
  refine ⟨hordered, ?_, ?_⟩
  · rw [hstart, hresult]
    rfl
  · apply Nat.le_antisymm
    · apply Nat.le_of_not_lt
      intro hlater
      exact hfirst 3 hlater (by decide)
    · apply Nat.le_of_not_lt
      intro hearlier
      exact hearly _ hearlier hfound

end Bootstrap

end RemoteEval
