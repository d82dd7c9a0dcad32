import RemoteEval.Proofs.Literal.Sealed
import RemoteEval.Proofs.Request

/-!
Requests that are written in part. The marks of a frame stand in a front of it where they stand in
the whole, so a front that is laid out as a request has the namespace and the id of the whole, and
less code. What it has for code is a proper front of a literal, and that is no literal. So a front
of a frame is refused wherever it ends, also when the blanks that it ends in are trimmed.
-/
namespace RemoteEval.Request

open Text

/-- A front of a frame that is laid out as a request has the parts of the whole, up to the code. -/
theorem parts?_of_front {r : Request} (h : MarkFree r.id) {line path id code : String}
    {more : List Char} (hfront : trimEnd line.toList ++ more = r.frame.toList)
    (hparts : parts? line = some (path, id, code)) :
    path = r.path.encode ∧ id = Literal.quote r.id ∧
      code.toList ++ ')' :: more = (Literal.quote r.code).toList ++ [')'] := by
  simp only [parts?, bind, pure, Option.bind_eq_some_iff, Prod.exists, Option.some.injEq,
    Prod.mk.injEq] at hparts
  obtain ⟨behindOpening, hopening, pathText, behindPath, hpath, idText, behindId, hid, codeText,
    hcode, rfl, rfl, rfl⟩ := hparts
  rw [dropStart?_eq_some.1 hopening, toList_frame, List.append_assoc] at hfront
  have hpathWhole := breakAt?_append_right hpath more
  rw [List.append_cancel_left hfront, breakAt?_path, Option.some_inj, Prod.mk.injEq] at hpathWhole
  obtain ⟨rfl, hbehindPath⟩ := hpathWhole
  have hidWhole := breakAt?_append_right hid more
  rw [← hbehindPath, breakAt?_quote h, Option.some_inj, Prod.mk.injEq] at hidWhole
  obtain ⟨rfl, hbehindId⟩ := hidWhole
  refine ⟨String.ofList_toList, String.ofList_toList, ?_⟩
  rw [String.toList_ofList, hbehindId, dropEnd?_eq_some.1 hcode, List.append_assoc]
  rfl

/-- What stands for the code in a proper front of a frame is no literal. -/
theorem unquote_code_of_front {text code : String} {more : List Char} (hmore : more ≠ [])
    (h : code.toList ++ ')' :: more = (Literal.quote text).toList ++ [')']) :
    Literal.unquote code = none := by
  cases hread : Literal.unquote code with
  | none => rfl
  | some read =>
    obtain ⟨more, last, rfl⟩ := List.eq_nil_or_concat more |>.resolve_left hmore
    have hliteral : code.toList ++ ')' :: more = (Literal.quote text).toList := by
      rw [List.concat_eq_append, ← List.cons_append, ← List.append_assoc] at h
      exact List.append_inj_left' h rfl
    have hsame := Literal.eq_of_prefix hread (Literal.unquote_quote text) ⟨_, hliteral⟩
    have hlength := congrArg List.length hliteral
    rw [hsame, List.length_append, List.length_cons] at hlength
    omega

/-- A line that is a proper front of a frame when the blanks at its end are trimmed is refused. -/
theorem parse_of_front {r : Request} (h : MarkFree r.id) {line : String} {more : List Char}
    (hmore : more ≠ []) (hfront : trimEnd line.toList ++ more = r.frame.toList) :
    parse line = .error (.malformedRequest line) := by
  rw [parse]
  cases hparts : parts? line with
  | none => rfl
  | some parts =>
    obtain ⟨path, id, code⟩ := parts
    obtain ⟨rfl, rfl, hcode⟩ := parts?_of_front h hfront hparts
    simp only [Literal.unquote_quote, Path.decode_encode, unquote_code_of_front hmore hcode]

/-- No proper front of the frame of a request whose id does not hold the mark in front of the code,
as no generated id does, is read as a request. The error shows the front. -/
theorem partial_frames_are_refused :
    (∀ bits, MarkFree (RequestId.ofBits bits)) ∧
    ∀ (r : Request) (line : String), MarkFree r.id → line.toList <+: r.frame.toList →
      line ≠ r.frame → parse line = .error (.malformedRequest line) := by
  refine ⟨markFree_ofBits, ?_⟩
  intro r line h hfront hproper
  obtain ⟨blanks, hblanks, -⟩ := trimEnd_append_blanks line.toList
  obtain ⟨more, hmore⟩ := hfront
  have hrest : blanks ++ more ≠ [] := by
    intro hnil
    obtain ⟨-, rfl⟩ := List.append_eq_nil_iff.1 hnil
    rw [List.append_nil] at hmore
    exact hproper (String.toList_inj.1 hmore)
  refine parse_of_front h hrest ?_
  rw [← List.append_assoc, ← hblanks, hmore]

/-- A front that ends in a blank behind code that looks like the end of a frame. -/
theorem partial_frames_are_refused_behind_imitated_end :
    let r : Request := ⟨", code =", Path.root, "\") "⟩
    let line := "(ns = [:Main], reqid = \", code =\", code = \"\\\") "
    MarkFree r.id ∧ r.frame.toList = line.toList ++ ['"', ')'] ∧ line ≠ r.frame ∧
      parse line = .error (.malformedRequest line) := by
  intro r line
  have hfree : MarkFree r.id := fun h => absurd h.length_le (by decide)
  have hframe : r.frame.toList = line.toList ++ ['"', ')'] := by
    rw [toList_frame, Path.toList_encode, Literal.toList_quote, Literal.toList_quote]
    decide
  have hproper : line ≠ r.frame := by
    intro hwhole
    rw [← hwhole] at hframe
    simp at hframe
  exact ⟨hfree, hframe, hproper,
    partial_frames_are_refused.2 r line hfree ⟨_, hframe.symm⟩ hproper⟩

end RemoteEval.Request
