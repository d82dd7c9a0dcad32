/-!
Bytes and characters. `encode` writes characters as UTF-8. `decode` reads them back and says
where it stops: at a sequence that cannot be continued, with its size, or at one that the end
of the bytes cuts short. `lossy` goes on reading and puts a replacement character for each
sequence that stands for none.
-/
namespace RemoteEval.Text.Utf8

def encode (text : List Char) : List UInt8 := text.flatMap String.utf8EncodeChar

/-- The bytes that stand for no character: how many bytes before them are sound, and how many
they are, or none if the end of the bytes cuts them short. -/
structure Fault where
  index : Nat
  size : Option Nat
  deriving DecidableEq, Repr

def Fault.message (f : Fault) : String :=
  match f.size with
  | some n => s!"invalid utf-8 sequence of {n} bytes from index {f.index}"
  | none => s!"incomplete utf-8 byte sequence from index {f.index}"

inductive Reading where
  | char (c : Char) (more : Nat)
  | refused (size : Nat)
  | short

def isTail (b : UInt8) : Bool := 0x80 ≤ b && b ≤ 0xbf

/-- Whether the second byte of a sequence of three or four suits its leading byte, so that the
sequence is neither overlong, nor a surrogate, nor beyond the last code point. -/
def suits (lead second : UInt8) : Bool :=
  if lead = 0xe0 then 0xa0 ≤ second && second ≤ 0xbf
  else if lead = 0xed then 0x80 ≤ second && second ≤ 0x9f
  else if lead = 0xf0 then 0x90 ≤ second && second ≤ 0xbf
  else if lead = 0xf4 then 0x80 ≤ second && second ≤ 0x8f
  else isTail second

def tailBits (b : UInt8) : Nat := b.toNat % 64

def read (lead : UInt8) (rest : List UInt8) : Reading :=
  if lead < 0x80 then .char (Char.ofNat lead.toNat) 0
  else if 0xc2 ≤ lead && lead ≤ 0xdf then
    match rest with
    | [] => .short
    | b :: _ =>
      if isTail b then .char (Char.ofNat (lead.toNat % 32 * 64 + tailBits b)) 1 else .refused 1
  else if 0xe0 ≤ lead && lead ≤ 0xef then
    match rest with
    | [] => .short
    | b :: rest =>
      if suits lead b then
        match rest with
        | [] => .short
        | c :: _ =>
          if isTail c then
            .char (Char.ofNat ((lead.toNat % 16 * 64 + tailBits b) * 64 + tailBits c)) 2
          else .refused 2
      else .refused 1
  else if 0xf0 ≤ lead && lead ≤ 0xf4 then
    match rest with
    | [] => .short
    | b :: rest =>
      if suits lead b then
        match rest with
        | [] => .short
        | c :: rest =>
          if isTail c then
            match rest with
            | [] => .short
            | d :: _ =>
              if isTail d then
                .char (Char.ofNat
                  (((lead.toNat % 8 * 64 + tailBits b) * 64 + tailBits c) * 64 + tailBits d)) 3
              else .refused 3
          else .refused 2
      else .refused 1
  else .refused 1

/-- `decode` after `index` sound bytes, which stand for `done`, last character first. -/
def decodeFrom (index : Nat) (done : List Char) : List UInt8 → Except Fault (List Char)
  | [] => .ok done.reverse
  | b :: rest =>
    match read b rest with
    | .char c more => decodeFrom (index + 1 + more) (c :: done) (rest.drop more)
    | .refused size => .error ⟨index, some size⟩
    | .short => .error ⟨index, none⟩
termination_by bytes => bytes.length
decreasing_by simp only [List.length_drop, List.length_cons]; omega

def decode (bytes : List UInt8) : Except Fault (List Char) := decodeFrom 0 [] bytes

def replacement : Char := Char.ofNat 0xfffd

def lossyFrom (done : List Char) : List UInt8 → List Char
  | [] => done.reverse
  | b :: rest =>
    match read b rest with
    | .char c more => lossyFrom (c :: done) (rest.drop more)
    | .refused size => lossyFrom (replacement :: done) (rest.drop (size - 1))
    | .short => (replacement :: done).reverse
termination_by bytes => bytes.length
decreasing_by all_goals simp only [List.length_drop, List.length_cons]; omega

/-- The text of the bytes, with a replacement character for each sequence that stands for no
character. -/
def lossy (bytes : List UInt8) : List Char := lossyFrom [] bytes

/-- What was read before only precedes what is read on. -/
theorem decodeFrom_eq (index : Nat) (done : List Char) (bytes : List UInt8) :
    decodeFrom index done bytes = (decodeFrom index [] bytes).map (done.reverse ++ ·) := by
  induction hn : bytes.length using Nat.strongRecOn generalizing index done bytes with
  | ind n ih =>
    cases bytes with
    | nil => simp [decodeFrom, Except.map]
    | cons b rest =>
      rw [decodeFrom, decodeFrom]
      cases h : read b rest with
      | refused size => simp [Except.map]
      | short => simp [Except.map]
      | char c more =>
        have hlt : (rest.drop more).length < n := by
          rw [← hn, List.length_drop, List.length_cons]; omega
        simp only
        rw [ih _ hlt _ (c :: done) _ rfl, ih _ hlt _ [c] _ rfl]
        cases decodeFrom (index + 1 + more) [] (rest.drop more) <;> simp [Except.map]

end RemoteEval.Text.Utf8
