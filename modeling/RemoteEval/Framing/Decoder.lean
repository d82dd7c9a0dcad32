import RemoteEval.Framing.Scan
import RemoteEval.Response.Basic

/-!
Cutting a stream of bytes into responses. A decoder holds the bytes that have come in and not
been used. An event is cut out as soon as it is closed; an event broken by a line break, output
that is no event, and the rest at the end of the stream become unrecognized responses. Of a line
that grows too long a preview is reported and the rest is thrown away up to the next line break.
Every response takes at least one byte out of the buffer.
-/
namespace RemoteEval.Framing

def defaultBound : Nat := 64 * 1024

def previewSize : Nat := 256

/-- A decoder with its buffer. `discarding` is set while the rest of a line that was too long is
being thrown away. -/
structure Decoder where
  bound : Nat := defaultBound
  buffer : List UInt8 := []
  scan : Scan := {}
  discarding : Bool := false

def isBlankByte (b : UInt8) : Bool :=
  b = 0x20 || b = 0x09 || b = lineBreak || b = 0x0c || b = 0x0d

def endsStray (b : UInt8) : Bool := b = lineBreak || b = openParen

namespace Decoder

def feed (d : Decoder) (bytes : List UInt8) : Decoder := { d with buffer := d.buffer ++ bytes }

def drop (d : Decoder) (size : Nat) : Decoder := { d with buffer := d.buffer.drop size, scan := {} }

def limit (d : Decoder) : Option Response × Decoder :=
  if d.bound < d.buffer.length then
    (some (.ofStray (d.buffer.take previewSize) (.tooLong d.bound)),
      { d with buffer := [], scan := {}, discarding := true })
  else (none, d)

def nextForm (d : Decoder) : Option Response × Decoder :=
  match d.scan.resume d.buffer with
  | .inr (.closed size) => (some (.ofFrame (d.buffer.take size)), d.drop size)
  | .inr (.broken size) => (some (.ofStray (d.buffer.take size) .lineEnded), d.drop size)
  | .inl scan => { d with scan }.limit

def nextStray (d : Decoder) : Option Response × Decoder :=
  match d.buffer.dropWhile fun b => !endsStray b with
  | [] => d.limit
  | rest =>
    (some (.ofStray (d.buffer.takeWhile fun b => !endsStray b) .strayText),
      { d with buffer := rest })

def nextKept (d : Decoder) : Option Response × Decoder :=
  if d.scan.isIdle then
    match d.buffer.dropWhile isBlankByte with
    | [] => (none, { d with buffer := [] })
    | b :: rest =>
      if b = openParen then { d with buffer := b :: rest }.nextForm
      else { d with buffer := b :: rest }.nextStray
  else d.nextForm

def next (d : Decoder) : Option Response × Decoder :=
  if d.discarding then
    match d.buffer.dropWhile fun b => b != lineBreak with
    | [] => (none, { d with buffer := [] })
    | _ :: rest => { d with buffer := rest, discarding := false }.nextKept
  else d.nextKept

/-- Take the next response when nothing more will come in; what is left over in the end is one. -/
def nextAtEnd (d : Decoder) : Option Response × Decoder :=
  match d.next with
  | (some response, d) => (some response, d)
  | (none, d) =>
    if d.buffer.isEmpty then (none, d)
    else (some (.ofStray d.buffer .streamEnded), { d with buffer := [], scan := {} })

theorem limit_length_lt {d e : Decoder} {r : Response} (h : d.limit = (some r, e)) :
    e.buffer.length < d.buffer.length := by
  unfold limit at h
  split at h
  · next hlong => cases h; exact Nat.lt_of_le_of_lt (Nat.zero_le _) hlong
  · cases h

theorem limit_none {d e : Decoder} (h : d.limit = (none, e)) : e = d := by
  unfold limit at h
  split at h <;> cases h
  rfl

/-- A form that starts the buffer, or has been looked at before, is not empty. -/
theorem nextForm_length_lt {d e : Decoder} {r : Response} (h : d.nextForm = (some r, e))
    (hstart : 0 < d.scan.pos ∨ d.scan.pos = 0 ∧ d.buffer.head? = some openParen) :
    e.buffer.length < d.buffer.length := by
  unfold nextForm at h
  split at h
  · next size hcut =>
    cases h
    have hsize := Scan.pass_cut hcut
    simp only [List.length_drop] at hsize
    simp only [drop, List.length_drop]
    omega
  · next size hcut =>
    cases h
    have hsize := Scan.pass_cut hcut
    simp only [List.length_drop] at hsize
    simp only [drop, List.length_drop]
    rcases hstart with hpos | ⟨hpos, hhead⟩
    · omega
    · cases hbuffer : d.buffer with
      | nil => simp [hbuffer] at hhead
      | cons b rest =>
        simp only [hbuffer, List.head?_cons, Option.some.injEq] at hhead
        subst hhead
        rw [Scan.resume, hpos, List.drop_zero, hbuffer, Scan.pass] at hcut
        have hstep : ∃ t, d.scan.step openParen = .inl t := by
          unfold Scan.step
          repeat' split
          all_goals first | exact ⟨_, rfl⟩ | simp_all [openParen, lineBreak]
        obtain ⟨t, ht⟩ := hstep
        rw [ht] at hcut
        have hrest := Scan.pass_cut hcut
        have ht1 := Scan.step_pos ht
        simp only [hbuffer, List.length_cons] at hsize ⊢
        simp only at hrest
        omega
  · next scan hscan => simpa using limit_length_lt h

theorem nextStray_length_lt {d e : Decoder} {r : Response} (h : d.nextStray = (some r, e))
    (hstart : ∃ b rest, d.buffer = b :: rest ∧ endsStray b = false) :
    e.buffer.length < d.buffer.length := by
  unfold nextStray at h
  split at h
  · exact limit_length_lt h
  · cases h
    obtain ⟨b, tail, hbuffer, hb⟩ := hstart
    have hle := (List.dropWhile_suffix (l := tail) fun b => !endsStray b).length_le
    simp only [hbuffer, List.dropWhile_cons, hb, Bool.not_false, if_true, List.length_cons]
    omega

theorem nextKept_length_lt {d e : Decoder} {r : Response} (h : d.nextKept = (some r, e)) :
    e.buffer.length < d.buffer.length := by
  unfold nextKept at h
  split at h
  · next hidle =>
    have hle := (List.dropWhile_suffix (l := d.buffer) isBlankByte).length_le
    split at h
    · cases h
    · next b rest hrest =>
      rw [hrest] at hle
      have hblank : isBlankByte b = false := by
        have := List.head?_dropWhile_not isBlankByte d.buffer
        rw [hrest] at this
        simpa using this
      split at h
      · next hopen =>
        have hpos : d.scan.pos = 0 := by simpa [Scan.isIdle] using hidle
        have := nextForm_length_lt h (.inr ⟨hpos, by simp [hopen]⟩)
        simp only at this
        omega
      · next hopen =>
        have hends : endsStray b = false := by
          simp only [isBlankByte, Bool.or_eq_false_iff, decide_eq_false_iff_not] at hblank
          simp [endsStray, hopen, hblank]
        have := nextStray_length_lt h ⟨b, rest, rfl, hends⟩
        simp only at this
        omega
  · next hidle =>
    have hpos : 0 < d.scan.pos := by
      simp only [Scan.isIdle, beq_iff_eq] at hidle
      omega
    exact nextForm_length_lt h (.inl hpos)

/-- Every response takes at least one byte out of the buffer. -/
theorem next_length_lt {d e : Decoder} {r : Response} (h : d.next = (some r, e)) :
    e.buffer.length < d.buffer.length := by
  unfold next at h
  split at h
  · have hle := (List.dropWhile_suffix (l := d.buffer) fun b => b != lineBreak).length_le
    split at h
    · cases h
    · next b rest hrest =>
      rw [hrest] at hle
      have := nextKept_length_lt h
      simp only [List.length_cons] at this hle
      omega
  · exact nextKept_length_lt h

theorem nextKept_none_length_le {d e : Decoder} (h : d.nextKept = (none, e)) :
    e.buffer.length ≤ d.buffer.length := by
  have hle := (List.dropWhile_suffix (l := d.buffer) isBlankByte).length_le
  have hform : ∀ {c e : Decoder}, c.nextForm = (none, e) → e.buffer = c.buffer := by
    intro c e h
    unfold nextForm at h
    split at h
    · cases h
    · cases h
    · rw [limit_none h]
  unfold nextKept at h
  split at h
  · split at h
    · cases h; simp
    · next b rest hrest =>
      rw [hrest] at hle
      split at h
      · rw [hform h]; exact hle
      · unfold nextStray at h
        split at h
        · rw [limit_none h]; exact hle
        · cases h
  · exact Nat.le_of_eq (congrArg List.length (hform h))

theorem next_none_length_le {d e : Decoder} (h : d.next = (none, e)) :
    e.buffer.length ≤ d.buffer.length := by
  unfold next at h
  split at h
  · have hle := (List.dropWhile_suffix (l := d.buffer) fun b => b != lineBreak).length_le
    split at h
    · cases h; simp
    · next b rest hrest =>
      rw [hrest] at hle
      have := nextKept_none_length_le h
      simp only [List.length_cons] at this hle
      omega
  · exact nextKept_none_length_le h

/-- At the end of the stream, too, every response takes at least one byte. -/
theorem nextAtEnd_length_lt {d e : Decoder} {r : Response} (h : d.nextAtEnd = (some r, e)) :
    e.buffer.length < d.buffer.length := by
  unfold nextAtEnd at h
  split at h
  · next hnext => cases h; exact next_length_lt hnext
  · next c hnext =>
    have hle := next_none_length_le hnext
    split at h
    · cases h
    · next hne =>
      cases h
      have : 0 < c.buffer.length := List.length_pos_iff.2 (by simpa using hne)
      simp only [List.length_nil]
      omega

def drain (d : Decoder) : List Response × Decoder :=
  match _hnext : d.next with
  | (none, e) => ([], e)
  | (some response, e) =>
    let (responses, e) := e.drain
    (response :: responses, e)
termination_by d.buffer.length
decreasing_by exact next_length_lt _hnext

def drainAtEnd (d : Decoder) : List Response × Decoder :=
  match _hnext : d.nextAtEnd with
  | (none, e) => ([], e)
  | (some response, e) =>
    let (responses, e) := e.drainAtEnd
    (response :: responses, e)
termination_by d.buffer.length
decreasing_by exact nextAtEnd_length_lt _hnext

end Decoder

end RemoteEval.Framing
