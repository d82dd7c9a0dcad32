import Mathlib.Data.List.Forall2
import RemoteEval.Proofs.Framing.Characters
import RemoteEval.Proofs.Literal
import RemoteEval.Proofs.Namespace.Form
import RemoteEval.Request

/-!
Requests on the wire. A line is taken apart at the first mark of each kind. No path holds the mark
in front of the id, since a comma in a path is followed by a colon; a literal holds the mark in
front of the code only if its text does, since escapes only bring in characters that are not in the
mark. The code comes last, so it may hold anything. Hence requests whose ids do not hold the mark
are read as they were written.
-/
namespace RemoteEval.Request

open Text Framing

def MarkFree (id : RequestId) : Prop := ¬ codeMark.toList <:+: id.toList

/-- Generated ids consist of digits. -/
theorem markFree_ofBits (bits : UInt32) : MarkFree (RequestId.ofBits bits) := by
  intro hmark
  have hcomma : ',' ∈ (RequestId.ofBits bits).toList := hmark.subset (List.mem_cons_self ..)
  rw [RequestId.ofBits, String.toList_ofList] at hcomma
  obtain ⟨digit, -, hdigit⟩ := Literal.exists_digit_of_mem_zeros hcomma
  exact Nat.digitChar_ne ',' rfl hdigit.symm

theorem breakAt?_quote {id : RequestId} (h : MarkFree id) (rest : List Char) :
    breakAt? codeMark.toList ((Literal.quote id).toList ++ (codeMark.toList ++ rest)) =
      some ((Literal.quote id).toList, rest) := by
  have hmark : ¬ ',' :: codeMark.toList.tail <:+: id.toList := h
  have hescape := Literal.breakAt?_escape hmark (by decide) (by decide)
    (breakAt?_append codeMark.toList rest)
  rw [Literal.toList_quote, List.cons_append, List.append_assoc]
  exact breakAt?_cons_of_ne (by decide) hescape

theorem breakAt?_path (path : Path) (rest : List Char) :
    breakAt? idMark.toList (path.encode.toList ++ (idMark.toList ++ rest)) =
      some (path.encode.toList, rest) := by
  have hmark (rest : List Char) : ¬ idMark.toList <+: ',' :: ' ' :: ':' :: rest := by
    rintro ⟨tail, htail⟩
    cases htail
  have hclosing := breakAt?_cons_of_ne (by decide : ',' ≠ ']') (breakAt?_append idMark.toList rest)
  have hitems := Path.breakAt?_items path.identifiers hmark hclosing
  rw [Path.toList_encode, List.cons_append, List.append_assoc]
  exact breakAt?_cons_of_ne (by decide) hitems

theorem toList_frame (r : Request) : r.frame.toList =
    opening.toList ++ (r.path.encode.toList ++ (idMark.toList ++ ((Literal.quote r.id).toList ++
      (codeMark.toList ++ ((Literal.quote r.code).toList ++ [')']))))) := by
  simp only [frame, String.toList_append, List.append_assoc]
  rfl

theorem parts?_frame {r : Request} (h : MarkFree r.id) {blanks : String}
    (hblanks : ∀ c ∈ blanks.toList, isBlank c = true) :
    parts? (r.frame ++ blanks) = some (r.path.encode, Literal.quote r.id, Literal.quote r.code) := by
  have htrim : trimEnd (r.frame ++ blanks).toList = r.frame.toList := by
    rw [String.toList_append]
    refine trimEnd_append hblanks ?_
    rw [toList_frame]
    simp only [← List.append_assoc, List.getLast?_concat, Option.mem_some_iff, forall_eq']
    decide
  rw [parts?, htrim, toList_frame, dropStart?_append]
  simp only [bind, Option.bind_some, breakAt?_path, breakAt?_quote h, dropEnd?_append,
    String.ofList_toList]
  rfl

/-- A frame is read as the request it was written for, whatever blanks follow it. -/
theorem parse_frame {r : Request} (h : MarkFree r.id) {blanks : String}
    (hblanks : ∀ c ∈ blanks.toList, isBlank c = true) : parse (r.frame ++ blanks) = .ok r := by
  rw [parse, parts?_frame h hblanks]
  simp only [Literal.unquote_quote, Path.decode_encode]

/-- A frame is one line of visible characters. -/
theorem isControl_of_mem_frame {r : Request} {c : Char} (h : c ∈ r.frame.toList) :
    Literal.isControl c = false := by
  have hopening : (opening.toList.all fun c => !Literal.isControl c) = true := by decide
  have hidMark : (idMark.toList.all fun c => !Literal.isControl c) = true := by decide
  have hcodeMark : (codeMark.toList.all fun c => !Literal.isControl c) = true := by decide
  simp only [toList_frame, List.mem_append, List.mem_singleton] at h
  rcases h with h | h | h | h | h | h | rfl
  · exact Literal.isControl_of_all hopening h
  · exact Path.isControl_of_mem_encode h
  · exact Literal.isControl_of_all hidMark h
  · exact Literal.isControl_of_mem_quote h
  · exact Literal.isControl_of_all hcodeMark h
  · exact Literal.isControl_of_mem_quote h
  · rfl

theorem lineBreak_not_mem_frame (r : Request) : lineBreak ∉ Utf8.encode r.frame.toList := by
  apply lineBreak_not_mem_encode
  intro h
  cases isControl_of_mem_frame h

def encodeAll (before : List UInt8) (requests : List Request) : List UInt8 :=
  requests.foldl (fun buffer r => buffer ++ r.wire) before

theorem encodeAll_eq (before : List UInt8) (requests : List Request) :
    encodeAll before requests = before ++ requests.flatMap wire := by
  induction requests generalizing before with
  | nil => exact (List.append_nil before).symm
  | cons r requests ih =>
    refine (ih (before ++ r.wire)).trans ?_
    rw [List.flatMap_cons, List.append_assoc]

theorem splitOn_wire (requests : List Request) :
    (requests.flatMap wire).splitOn lineBreak =
      (requests.map fun r => Utf8.encode r.frame.toList) ++ [[]] := by
  induction requests with
  | nil => rfl
  | cons r requests ih =>
    have hsplit : (r :: requests).flatMap wire =
        Utf8.encode r.frame.toList ++ lineBreak :: requests.flatMap wire := by
      simp [wire]
    rw [hsplit, List.splitOn_append_cons_self_of_not_mem (lineBreak_not_mem_frame r), ih]
    rfl

/-- A line holds a request: it is the request's frame, has no control characters, and is read as
the request, whatever blanks follow it. -/
structure LineOf (r : Request) (line : List UInt8) : Prop where
  text : Utf8.decode line = .ok r.frame.toList
  visible : ∀ c ∈ r.frame.toList, Literal.isControl c = false
  read : ∀ blanks : String, (∀ c ∈ blanks.toList, isBlank c = true) →
    parse (r.frame ++ blanks) = .ok r

theorem lineOf_encode {r : Request} (h : MarkFree r.id) : LineOf r (Utf8.encode r.frame.toList) where
  text := Utf8.decode_encode r.frame.toList
  visible _ := isControl_of_mem_frame
  read _ := parse_frame h

theorem forall₂_lineOf {requests : List Request} (h : ∀ r ∈ requests, MarkFree r.id) :
    List.Forall₂ LineOf requests (requests.map fun r => Utf8.encode r.frame.toList) := by
  induction requests with
  | nil => exact .nil
  | cons r requests ih =>
    simp only [List.forall_mem_cons] at h
    exact .cons (lineOf_encode h.1) (ih h.2)

theorem frame_injective {r s : Request} (hr : MarkFree r.id) (hs : MarkFree s.id)
    (h : r.frame = s.frame) : r = s := by
  have hnone : ∀ c ∈ "".toList, isBlank c = true := by simp
  have hread := parse_frame hr hnone
  rw [h, parse_frame hs hnone] at hread
  exact (Except.ok.inj hread).symm

/-- Requests whose ids do not hold the mark in front of the code, as no generated id does, are
written behind what a buffer holds, each on a line of its own, and are read from their lines, in
order. Different ones have different frames. -/
theorem written_requests_are_read :
    (∀ bits, MarkFree (RequestId.ofBits bits)) ∧
    (∀ before requests, (∀ r ∈ requests, MarkFree r.id) →
      ∃ written lines, encodeAll before requests = before ++ written ∧
        written.splitOn lineBreak = lines ++ [[]] ∧ List.Forall₂ LineOf requests lines) ∧
    ∀ r s : Request, MarkFree r.id → MarkFree s.id → r ≠ s → r.frame ≠ s.frame := by
  refine ⟨markFree_ofBits, ?_, ?_⟩
  · intro before requests h
    exact ⟨_, _, encodeAll_eq before requests, splitOn_wire requests, forall₂_lineOf h⟩
  · intro r s hr hs hne h
    exact hne (frame_injective hr hs h)

/-- An id that stops short of the mark, and code that looks like the end of a frame. -/
theorem written_requests_are_read_with_mark_in_code :
    let r : Request := ⟨", code =", Path.root, "\", code = \"\n\")"⟩
    let s : Request := ⟨", code =", Path.root, ""⟩
    MarkFree r.id ∧ MarkFree s.id ∧ r ≠ s ∧
      r.frame.toList =
        "(ns = [:Main], reqid = \", code =\", code = \"\\\", code = \\\"\\n\\\")\")".toList ∧
      r.frame ≠ s.frame ∧
      ∃ written lines, encodeAll [0x78] [r, s] = 0x78 :: written ∧
        written.splitOn lineBreak = lines ++ [[]] ∧ List.Forall₂ LineOf [r, s] lines := by
  intro r s
  have hr : MarkFree r.id := fun h => absurd h.length_le (by decide)
  have hs : MarkFree s.id := hr
  have hne : r ≠ s := by
    intro h
    exact absurd (congrArg Request.code h) (by decide)
  have hframe : r.frame ≠ s.frame := written_requests_are_read.2.2 r s hr hs hne
  have hlines := written_requests_are_read.2.1 [0x78] [r, s] (by
    rw [List.forall_mem_cons, List.forall_mem_singleton]
    exact ⟨hr, hs⟩)
  refine ⟨hr, hs, hne, ?_, hframe, hlines⟩
  rw [toList_frame, Path.toList_encode, Literal.toList_quote, Literal.toList_quote]
  decide

end RemoteEval.Request
