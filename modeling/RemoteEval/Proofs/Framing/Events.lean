import RemoteEval.Proofs.Framing.Agreement
import RemoteEval.Proofs.Framing.Chunks
import RemoteEval.Proofs.Response.Written

/-!
Events on the wire. Events that are written one on each line are cut out one by one, each up to
its end, and the line break behind it is a blank before the next. So the responses come out as they
went in, however the stream is cut, whatever their strings hold.
-/
namespace RemoteEval.Framing

open Text Response

def eventLines (events : List (List Char)) : List UInt8 :=
  events.flatMap fun event => Utf8.encode event ++ [lineBreak]

theorem eventLines_cons (event : List Char) (events : List (List Char)) :
    eventLines (event :: events) = Utf8.encode event ++ lineBreak :: eventLines events := by
  simp [eventLines]

theorem runsWithin_nil (bound : Nat) : RunsWithin bound [] := by
  intro run hrun _
  rw [List.infix_nil.1 hrun]
  exact Nat.zero_le bound

/-- A stretch without a line break does not go beyond its line. -/
theorem RunsWithin.cons_line {bound : Nat} {line rest : List UInt8} (hrest : RunsWithin bound rest)
    (hline : lineBreak ∉ line) (hlength : line.length ≤ bound) :
    RunsWithin bound (line ++ lineBreak :: rest) := by
  rw [runsWithin_iff] at hrest ⊢
  intro tail htail
  obtain ⟨front, hsplit⟩ := (List.mem_tails _ _).1 htail
  have hstop (first : List UInt8) (hfirst : lineBreak ∉ first) :
      ((first ++ lineBreak :: rest).takeWhile fun b => b != lineBreak) = first := by
    have hpass : ∀ b ∈ first, (b != lineBreak) = true := by
      intro b hb
      simp only [bne_iff_ne]
      rintro rfl
      exact hfirst hb
    rw [List.takeWhile_append_of_pos hpass]
    simp
  -- The tail starts inside of the line, or at its line break or behind it.
  rcases List.append_eq_append_iff.1 hsplit with ⟨back, rfl, rfl⟩ | ⟨back, rfl, hback⟩
  · rw [hstop back fun h => hline (List.mem_append_right front h)]
    rw [List.length_append] at hlength
    omega
  · cases back with
    | nil =>
      obtain rfl : lineBreak :: rest = tail := hback
      simp
    | cons b back =>
      obtain ⟨-, rfl⟩ := List.cons.inj hback
      exact hrest tail ((List.mem_tails _ _).2 (List.suffix_append back tail))

theorem runsWithin_eventLines {bound : Nat} {responses : List Response} {events : List (List Char)}
    (h : List.Forall₂ EventWritten responses events)
    (hlength : ∀ event ∈ events, (Utf8.encode event).length ≤ bound) :
    RunsWithin bound (eventLines events) := by
  induction h with
  | nil => exact runsWithin_nil bound
  | cons hevent hevents ih =>
    simp only [List.forall_mem_cons] at hlength
    rw [eventLines_cons]
    exact (ih hlength.2).cons_line (lineBreak_not_mem_encode hevent.lineBreak_not_mem) hlength.1

namespace Decoder

/-- A line break between events is passed over. -/
theorem next_lineBreak (bound : Nat) (rest : List UInt8) :
    Decoder.next { bound, buffer := lineBreak :: rest } = Decoder.next { bound, buffer := rest } :=
  rfl

/-- An event that was written is taken out of the stream as the response it stands for. -/
theorem next_event (bound : Nat) {response : Response} {event : List Char}
    (h : EventWritten response event) (rest : List UInt8) :
    Decoder.next { bound, buffer := Utf8.encode event ++ rest } =
      (some response, { bound, buffer := rest }) := by
  obtain ⟨tokens, datum, htokens, hread, hdatum⟩ := h.datum
  have hcut := resume_of_readDatum h.lineBreak_not_mem h.head?_eq h.getLast?_eq htokens hread rest
  have hparse : Response.parse event = response := by
    simp only [Response.parse, Response.read, htokens, hread, hdatum]
  have hframe : Response.ofFrame (Utf8.encode event) = response := by
    rw [Response.ofFrame, Utf8.decode_encode]
    exact hparse
  have hbuffer : ∃ inner, Utf8.encode event ++ rest = openParen :: inner := by
    have hhead := h.head?_eq
    cases event with
    | nil => cases hhead
    | cons c text =>
      obtain rfl := Option.some.inj hhead
      exact ⟨_, rfl⟩
  obtain ⟨inner, hinner⟩ := hbuffer
  have hform : Decoder.next { bound, buffer := openParen :: inner } =
      Decoder.nextForm { bound, buffer := openParen :: inner } := rfl
  rw [hinner, hform, ← hinner]
  simp only [nextForm, hcut, drop, List.take_left, List.drop_left, hframe]

theorem drain_eventLines (bound : Nat) {responses : List Response} {events : List (List Char)}
    (h : List.Forall₂ EventWritten responses events) :
    Decoder.drain { bound, buffer := eventLines events } = (responses, { bound }) := by
  induction h with
  | nil => exact drain_of_none (next_fresh bound)
  | cons hevent hevents ih =>
    rw [eventLines_cons, drain_of_some (next_event bound hevent _),
      drain_congr (next_lineBreak bound _), ih]

/-- Every answer to a request can be written as an event, and events that are written one on each
line give back the responses, in order and nothing else, however the stream is cut. -/
theorem written_events_are_read (bound : Nat) :
    (∀ response : Response, response.id?.isSome = true → ∃ event, EventWritten response event) ∧
    ∀ responses events chunks, List.Forall₂ EventWritten responses events →
      (∀ event ∈ events, (Utf8.encode event).length ≤ bound) →
      chunks.flatten = eventLines events →
        Decoder.readAll { bound } chunks = (responses, { bound }) := by
  refine ⟨fun response => exists_eventWritten, ?_⟩
  intro responses events chunks hevents hlength hchunks
  have hroomy : (Decoder.feed { bound } chunks.flatten).Roomy :=
    ⟨.idle rfl, rfl, hchunks ▸ runsWithin_eventLines hevents hlength⟩
  rw [readAll_eq_drain (synced_fresh bound) (next_fresh bound) chunks hroomy, hchunks]
  exact drain_eventLines bound hevents

/-- The event `(failure "a" "\"\n)" ("é"))`, cut behind the backslash of its line break. -/
theorem written_events_are_read_behind_backslash :
    let response := .failure "a" "\"\n)" ["é"]
    let event := "(failure \"a\" \"\\\"\\n)\" (\"é\"))".toList
    let bytes := eventLines [event]
    EventWritten response event ∧ (Utf8.encode event).length = 28 ∧ bytes[16]? = some backslash ∧
      Decoder.readAll { bound := 28 } [bytes.take 17, bytes.drop 17] =
        ([response], { bound := 28 }) := by
  intro response event bytes
  have hid : StringWritten "a" "\"a\"".toList :=
    ⟨['a'], .cons (.plain (by decide) (by decide) (by decide)) .nil, rfl⟩
  have hmessage : StringWritten "\"\n)" "\"\\\"\\n)\"".toList :=
    ⟨['\\', '"', '\\', 'n', ')'], .cons (.escaped (by decide)) (.cons .lineBreak
      (.cons (.plain (by decide) (by decide) (by decide)) .nil)), rfl⟩
  have hframe : StringWritten "é" "\"é\"".toList :=
    ⟨['é'], .cons (.plain (by decide) (by decide) (by decide)) .nil, rfl⟩
  have hevent : EventWritten response event := .failure hid hmessage (.cons hframe .nil)
  have hlength : (Utf8.encode event).length = 28 := rfl
  refine ⟨hevent, hlength, rfl, (written_events_are_read 28).2 [response] [event] _
    (.cons hevent .nil) ?_ ?_⟩
  · rw [List.forall_mem_singleton, hlength]
  · rw [List.flatten_cons, List.flatten_singleton, List.take_append_drop]

end Decoder

end RemoteEval.Framing
