import RemoteEval.Proofs.Framing.Slices
import RemoteEval.Proofs.Response.Grammar

/-!
Events that are cut short. The parenthesis that closes an event is its last byte, so no front of
the event is closed, wherever it ends: in a string, behind a backslash or inside a character. Such
a front is refused as soon as its line ends, or else when the stream does.
-/
namespace RemoteEval.Framing

open Text Response

/-- A text that answers a request is read as one datum, with nothing unfinished and nothing left. -/
theorem exists_datum_of_parse {text : List Char} (h : (Response.parse text).id?.isSome = true) :
    ∃ tokens datum, tokenize text = (tokens, none) ∧
      readDatum none [] tokens = .ok (datum, []) := by
  rcases parse_cases text with ⟨response, hread, -, -⟩ | ⟨reason, -, hparse⟩
  · obtain ⟨tokens, hevent, hlexes⟩ := read_eq_ok_iff.1 hread
    obtain ⟨datum, hdatum, -⟩ := hevent.datum
    exact ⟨tokens, datum, hlexes.tokenize_eq, hdatum⟩
  · rw [hparse] at h
    cases h

/-- An event in parentheses on one line is a form. -/
theorem isForm_encode {event : List Char} (hbreak : '\n' ∉ event) (hstart : event.head? = some '(')
    (hlast : event.getLast? = some ')') (hevent : (Response.parse event).id?.isSome = true) :
    IsForm (Utf8.encode event) where
  head?_eq := by
    cases event with
    | nil => cases hstart
    | cons c inner =>
      obtain rfl := Option.some.inj hstart
      rfl
  pass_eq := by
    obtain ⟨tokens, datum, htokens, hread⟩ := exists_datum_of_parse hevent
    have hcut := resume_of_readDatum hbreak hstart hlast htokens hread []
    rwa [List.append_nil] at hcut

/-- No proper front of a form is closed. -/
theorem IsForm.isOpen {form part : List UInt8} (h : IsForm form) (hpart : part <+: form)
    (hne : part ≠ []) (hproper : part ≠ form) : IsOpen part where
  head?_eq := by
    obtain ⟨back, rfl⟩ := hpart
    rw [← h.head?_eq, List.head?_append_of_ne_nil _ hne]
  pass_eq := h.pass_of_lt hpart
    (Nat.lt_of_le_of_ne hpart.length_le fun hlength => hproper (hpart.eq_of_length hlength))

theorem runsWithin_of_length_le {bound : Nat} {bytes : List UInt8} (h : bytes.length ≤ bound) :
    RunsWithin bound bytes :=
  fun _ hrun _ => hrun.length_le.trans h

namespace Decoder

/-- An open event whose line ends is refused at once, and the decoder is as new. -/
theorem readAll_of_line_ended {bound : Nat} {part : List UInt8} (h : IsOpen part)
    (hroom : part.length ≤ bound) {chunks : List (List UInt8)}
    (hchunks : chunks.flatten = part ++ [lineBreak]) :
    Decoder.readAll { bound } chunks = ([.ofStray part .lineEnded], { bound }) := by
  have hslices : Sliced chunks.flatten [.ofStray part .lineEnded] := by
    rw [hchunks]
    exact .slice [] part (by simp) h.ne_nil h.lineBreak_not_mem (.brokenEvent h rfl)
      (.blanks (List.forall_mem_singleton.2 rfl))
  have hruns : RunsWithin bound chunks.flatten :=
    hchunks ▸ (runsWithin_nil bound).cons_line h.lineBreak_not_mem hroom
  have hread := (readAll_of_sliced hslices hruns).1
  have hends : chunks.flatten.getLast? = some lineBreak := by simp [hchunks]
  have hafter := readAll_of_ends (synced_fresh bound) hends
  have hnone : Decoder.drainAtEnd { bound } = ([], { bound }) := drainAtEnd_of_none rfl
  rw [hafter, hnone, List.append_nil] at hread
  exact Prod.ext hread hafter

/-- An open event that the stream ends in gives nothing before the end and is refused there. -/
theorem readAll_of_stream_ended {bound : Nat} {part : List UInt8} (h : IsOpen part)
    (hroom : part.length ≤ bound) {chunks : List (List UInt8)} (hchunks : chunks.flatten = part) :
    (Decoder.readAll { bound } chunks).1 = [] ∧
      (Decoder.readAll { bound } chunks).2.drainAtEnd =
        ([.ofStray part .streamEnded], { bound }) := by
  have hslices : Sliced chunks.flatten [.ofStray part .streamEnded] := by
    have hnothing : Sliced [] [] := .blanks (by simp)
    have hslice := Sliced.slice [] part (by simp) h.ne_nil h.lineBreak_not_mem (.openEvent h rfl)
      hnothing
    rw [hchunks]
    rwa [List.append_nil, List.nil_append] at hslice
  have hruns : RunsWithin bound chunks.flatten := hchunks ▸ runsWithin_of_length_le hroom
  obtain ⟨hread, hafter⟩ := readAll_of_sliced hslices hruns
  have hnothing : (Decoder.readAll { bound } chunks).1 = [] := by
    have hroomy : (Decoder.feed { bound } chunks.flatten).Roomy := ⟨.idle rfl, rfl, hruns⟩
    obtain ⟨scan, hnone⟩ := next_of_isOpen h hroom
    rw [readAll_eq_drain (synced_fresh bound) (next_fresh bound) chunks hroomy, hchunks]
    exact congrArg Prod.fst (drain_of_none hnone)
  rw [hnothing, List.nil_append] at hread
  exact ⟨hnothing, Prod.ext hread hafter⟩

/-- A front of an event, wherever it ends, is never taken for an event. It is refused when its line
ends, or when the stream does, with all its bytes and the reason that is the case. -/
theorem truncated_events_are_refused (bound : Nat) (event : List Char) (part : List UInt8)
    (chunks : List (List UInt8)) (hbreak : '\n' ∉ event) (hstart : event.head? = some '(')
    (hlast : event.getLast? = some ')') (hevent : (Response.parse event).id?.isSome = true)
    (hpart : part <+: Utf8.encode event) (hne : part ≠ []) (hproper : part ≠ Utf8.encode event)
    (hroom : part.length ≤ bound) :
    (chunks.flatten = part ++ [lineBreak] →
      Decoder.readAll { bound } chunks =
        ([.unrecognized (String.ofList (Utf8.lossy part)) .lineEnded], { bound })) ∧
    (chunks.flatten = part →
      (Decoder.readAll { bound } chunks).1 = [] ∧
      (Decoder.readAll { bound } chunks).2.drainAtEnd =
        ([.unrecognized (String.ofList (Utf8.lossy part)) .streamEnded], { bound })) ∧
    Reason.lineEnded.message = "line ended inside an event" ∧
    Reason.streamEnded.message = "stream ended inside an event" := by
  have hopen := (isForm_encode hbreak hstart hlast hevent).isOpen hpart hne hproper
  exact ⟨readAll_of_line_ended hopen hroom, readAll_of_stream_ended hopen hroom, rfl, rfl⟩

/-- The event `(failure "é" "" ())` up to the first byte of its letter, cut before that byte. -/
theorem truncated_events_are_refused_inside_letter :
    let event := "(failure \"é\" \"\" ())".toList
    let part := (Utf8.encode event).take 11
    Response.parse event = .failure "é" "" [] ∧ part[10]? = some 0xc3 ∧
      Decoder.readAll { bound := 11 } [part.take 10, part.drop 10 ++ [lineBreak]] =
        ([.unrecognized (String.ofList (Utf8.lossy part)) .lineEnded], { bound := 11 }) ∧
      (Decoder.readAll { bound := 11 } [part.take 10, part.drop 10]).2.drainAtEnd =
        ([.unrecognized (String.ofList (Utf8.lossy part)) .streamEnded], { bound := 11 }) := by
  intro event part
  have hparse : Response.parse event = .failure "é" "" [] := rfl
  have hevent : (Response.parse event).id?.isSome = true := by
    rw [hparse]
    rfl
  have hproper : part ≠ Utf8.encode event := by decide
  have hpart : part <+: Utf8.encode event := List.take_prefix 11 _
  refine ⟨hparse, rfl, ?_, ?_⟩
  · exact (truncated_events_are_refused 11 event part [part.take 10, part.drop 10 ++ [lineBreak]]
      (by decide) rfl rfl hevent hpart (by decide) hproper (by decide)).1 rfl
  · exact ((truncated_events_are_refused 11 event part [part.take 10, part.drop 10]
      (by decide) rfl rfl hevent hpart (by decide) hproper (by decide)).2.1 rfl).2

end Decoder

end RemoteEval.Framing
