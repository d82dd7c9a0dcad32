import RemoteEval.Framing.Scan
import RemoteEval.Proofs.Text.Utf8

/-!
Scanning a text character by character. All bytes that end a form, open a list or a string or
escape the next byte are ASCII, and no byte of another character is. So a scan passes the bytes of
a character together, and only the first of them can have been escaped.
-/
namespace RemoteEval.Framing

open Text

def Scan.stepChar (s : Scan) (c : Char) : Scan ⊕ Cut :=
  let pos := s.pos + (String.utf8EncodeChar c).length
  if c = '\n' then .inr (.broken s.pos)
  else if s.inString then
    .inl { s with pos, inString := s.escaped || c != '"', escaped := !s.escaped && c == '\\' }
  else if c = '"' then .inl { s with pos, inString := true }
  else if c = '(' then .inl { s with pos, depth := s.depth + 1 }
  else if c = ')' then
    if s.depth ≤ 1 then .inr (.closed pos) else .inl { s with pos, depth := s.depth - 1 }
  else .inl { s with pos }

theorem ne_of_high {b mark : UInt8} (hb : 0x80 ≤ b.toNat) (hmark : mark.toNat < 0x80) :
    b ≠ mark := by
  rintro rfl
  omega

theorem Scan.step_high {s : Scan} {b : UInt8} (hb : 0x80 ≤ b.toNat) :
    s.step b = .inl { s with pos := s.pos + 1, escaped := !s.inString && s.escaped } := by
  have hbreak : b ≠ lineBreak := ne_of_high hb (by decide)
  have hquote : b ≠ quoteMark := ne_of_high hb (by decide)
  have hopen : b ≠ openParen := ne_of_high hb (by decide)
  have hclose : b ≠ closeParen := ne_of_high hb (by decide)
  have hbackslash : b ≠ backslash := ne_of_high hb (by decide)
  unfold Scan.step
  cases hstring : s.inString <;> simp [*]

theorem Scan.pass_high {s : Scan} {bytes : List UInt8} (hbytes : ∀ b ∈ bytes, 0x80 ≤ b.toNat)
    (hne : bytes ≠ []) :
    s.pass bytes =
      .inl { s with pos := s.pos + bytes.length, escaped := !s.inString && s.escaped } := by
  induction bytes generalizing s with
  | nil => exact absurd rfl hne
  | cons b rest ih =>
    rw [Scan.pass, Scan.step_high (hbytes b List.mem_cons_self)]
    cases rest with
    | nil => rfl
    | cons b' rest =>
      dsimp only
      rw [ih (fun c hc => hbytes c (List.mem_cons_of_mem b hc)) (List.cons_ne_nil b' rest)]
      simp [Nat.add_assoc, Nat.add_comm 1]

theorem Scan.stepChar_ascii (s : Scan) {c : Char} (hc : c.toNat < 0x80) :
    s.step (UInt8.ofNat c.toNat) = s.stepChar c := by
  have hmark (d : Char) (hd : d.toNat < 0x80) : UInt8.ofNat c.toNat = UInt8.ofNat d.toNat ↔ c = d :=
    Utf8.ofNat_toNat_eq_iff hc hd
  have hbreak : UInt8.ofNat c.toNat = lineBreak ↔ c = '\n' := hmark '\n' (by decide)
  have hquote : UInt8.ofNat c.toNat = quoteMark ↔ c = '"' := hmark '"' (by decide)
  have hopen : UInt8.ofNat c.toNat = openParen ↔ c = '(' := hmark '(' (by decide)
  have hclose : UInt8.ofNat c.toNat = closeParen ↔ c = ')' := hmark ')' (by decide)
  have hbackslash : UInt8.ofNat c.toNat = backslash ↔ c = '\\' := hmark '\\' (by decide)
  have hquote' : (UInt8.ofNat c.toNat != quoteMark) = (c != '"') := by
    rw [Bool.eq_iff_iff]
    simp [hquote]
  have hbackslash' : (UInt8.ofNat c.toNat == backslash) = (c == '\\') := by
    rw [Bool.eq_iff_iff]
    simp [hbackslash]
  unfold Scan.step Scan.stepChar
  simp only [hbreak, hquote, hopen, hclose, hquote', hbackslash', Utf8.encodeChar_of_ascii hc,
    List.length_singleton]

theorem Scan.stepChar_high (s : Scan) {c : Char} (hc : 0x80 ≤ c.toNat) :
    s.stepChar c = .inl { s with
      pos := s.pos + (String.utf8EncodeChar c).length
      escaped := !s.inString && s.escaped } := by
  have hne (d : Char) (hd : d.toNat < 0x80) : c ≠ d := by
    rintro rfl
    omega
  have hbreak : c ≠ '\n' := hne '\n' (by decide)
  have hquote : c ≠ '"' := hne '"' (by decide)
  have hopen : c ≠ '(' := hne '(' (by decide)
  have hclose : c ≠ ')' := hne ')' (by decide)
  have hbackslash : c ≠ '\\' := hne '\\' (by decide)
  unfold Scan.stepChar
  cases hstring : s.inString <;> simp [*]

/-- The bytes of a character are passed as one. -/
theorem Scan.pass_encodeChar (s : Scan) (c : Char) :
    s.pass (String.utf8EncodeChar c) = s.stepChar c := by
  by_cases hc : c.toNat < 0x80
  · rw [← Scan.stepChar_ascii s hc, Utf8.encodeChar_of_ascii hc, Scan.pass]
    cases s.step (UInt8.ofNat c.toNat) <;> rfl
  · have hhigh : 0x80 ≤ c.toNat := Nat.le_of_not_lt hc
    rw [Scan.pass_high (fun b => Utf8.high_of_mem_encodeChar hhigh) (Utf8.encodeChar_ne_nil c),
      Scan.stepChar_high s hhigh]

theorem Scan.pass_encode_cons (s : Scan) (c : Char) (text : List Char) (rest : List UInt8) :
    s.pass (Utf8.encode (c :: text) ++ rest) =
      match s.stepChar c with
      | .inl t => t.pass (Utf8.encode text ++ rest)
      | .inr cut => .inr cut := by
  rw [Utf8.encode_cons, List.append_assoc, Scan.pass_append]
  cases hstep : s.stepChar c with
  | inl t => simp only [Scan.pass_encodeChar, hstep]
  | inr cut => simp only [Scan.pass_encodeChar, hstep]

/-- A text without a line break has no line break among its bytes. -/
theorem lineBreak_not_mem_encode {text : List Char} (h : '\n' ∉ text) :
    lineBreak ∉ Utf8.encode text := by
  intro hmem
  obtain ⟨c, hc, hb⟩ := List.mem_flatMap.1 hmem
  by_cases hascii : c.toNat < 0x80
  · rw [Utf8.encodeChar_of_ascii hascii, List.mem_singleton] at hb
    have hsame : UInt8.ofNat '\n'.toNat = UInt8.ofNat c.toNat := hb
    obtain rfl := (Utf8.ofNat_toNat_eq_iff (by decide) hascii).1 hsame
    exact h hc
  · have hhigh := Utf8.high_of_mem_encodeChar (Nat.le_of_not_lt hascii) hb
    simp [lineBreak] at hhigh

end RemoteEval.Framing
