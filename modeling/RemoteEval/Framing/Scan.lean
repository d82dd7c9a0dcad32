/-!
Where an event ends in a stream of bytes. An event starts with a parenthesis and ends with the
one that closes it; parentheses inside strings do not count. A line break ends an event that is
still open. A scan remembers how far it has come, so that bytes that arrive later are looked at
once only.
-/
namespace RemoteEval.Framing

def lineBreak : UInt8 := 0x0a

def openParen : UInt8 := 0x28

def closeParen : UInt8 := 0x29

def quoteMark : UInt8 := 0x22

def backslash : UInt8 := 0x5c

/-- How far a form has been looked at: the bytes passed, the lists open, and whether the next
byte stands in a string and after a backslash. -/
structure Scan where
  pos : Nat := 0
  depth : Nat := 0
  inString : Bool := false
  escaped : Bool := false
  deriving DecidableEq, Repr

inductive Cut where
  | closed (size : Nat)
  | broken (size : Nat)
  deriving DecidableEq, Repr

def Scan.isIdle (s : Scan) : Bool := s.pos == 0

def Scan.step (s : Scan) (b : UInt8) : Scan ⊕ Cut :=
  if b = lineBreak then .inr (.broken s.pos)
  else if s.inString then
    .inl { s with
      pos := s.pos + 1
      inString := s.escaped || b != quoteMark
      escaped := !s.escaped && b == backslash }
  else if b = quoteMark then .inl { s with pos := s.pos + 1, inString := true }
  else if b = openParen then .inl { s with pos := s.pos + 1, depth := s.depth + 1 }
  else if b = closeParen then
    if s.depth ≤ 1 then .inr (.closed (s.pos + 1))
    else .inl { s with pos := s.pos + 1, depth := s.depth - 1 }
  else .inl { s with pos := s.pos + 1 }

def Scan.pass (s : Scan) : List UInt8 → Scan ⊕ Cut
  | [] => .inl s
  | b :: rest =>
    match s.step b with
    | .inl s => s.pass rest
    | .inr cut => .inr cut

def Scan.resume (s : Scan) (buffer : List UInt8) : Scan ⊕ Cut := s.pass (buffer.drop s.pos)

theorem Scan.pass_append (s : Scan) (first second : List UInt8) :
    s.pass (first ++ second) = match s.pass first with
      | .inl s => s.pass second
      | .inr cut => .inr cut := by
  induction first generalizing s with
  | nil => rfl
  | cons b rest ih =>
    simp only [List.cons_append, Scan.pass]
    cases s.step b with
    | inl t => exact ih t
    | inr cut => rfl

theorem Scan.step_pos {s t : Scan} {b : UInt8} (h : s.step b = .inl t) : t.pos = s.pos + 1 := by
  unfold Scan.step at h
  repeat' split at h
  all_goals cases h
  all_goals rfl

/-- A byte that ends a form is a line break, which is left, or the last byte of the form. -/
theorem Scan.step_cut {s : Scan} {b : UInt8} {cut : Cut} (h : s.step b = .inr cut) :
    cut = .broken s.pos ∨ cut = .closed (s.pos + 1) := by
  unfold Scan.step at h
  repeat' split at h
  all_goals cases h
  · exact .inl rfl
  · exact .inr rfl

/-- Every byte passed is counted. -/
theorem Scan.pass_pos {s t : Scan} {bytes : List UInt8} (h : s.pass bytes = .inl t) :
    t.pos = s.pos + bytes.length := by
  induction bytes generalizing s with
  | nil => cases h; rfl
  | cons b rest ih =>
    rw [Scan.pass] at h
    split at h
    · next u hu => rw [ih h, Scan.step_pos hu, List.length_cons]; omega
    · cases h

/-- A cut lies behind the bytes passed before it and inside those looked at. -/
theorem Scan.pass_cut {s : Scan} {bytes : List UInt8} {cut : Cut} (h : s.pass bytes = .inr cut) :
    match cut with
    | .closed size => s.pos < size ∧ size ≤ s.pos + bytes.length
    | .broken size => s.pos ≤ size ∧ size < s.pos + bytes.length := by
  induction bytes generalizing s with
  | nil => cases h
  | cons b rest ih =>
    rw [Scan.pass] at h
    split at h
    · next u hu =>
      have hrest := ih h
      have hpos := Scan.step_pos hu
      cases cut <;> simp only [List.length_cons] at hrest ⊢ <;> omega
    · next c hc =>
      cases h
      rcases Scan.step_cut hc with rfl | rfl
      · simp
      · simp only [List.length_cons]
        omega

end RemoteEval.Framing
