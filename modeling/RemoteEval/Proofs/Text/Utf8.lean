import Mathlib.Data.Nat.Init
import Mathlib.Tactic.Common
import RemoteEval.Text.Utf8

/-!
Reading UTF-8 is the inverse of writing it. Between the two stands the syntax of one character:
which bytes may follow one another, and the code point that they stand for. From a text nothing is
lost on the way to bytes and back, and bytes that are read as a text are the bytes of that text.
-/
namespace RemoteEval.Text.Utf8

theorem isTail_iff (b : UInt8) : isTail b = true ↔ 0x80 ≤ b.toNat ∧ b.toNat ≤ 0xbf := by
  simp [isTail, UInt8.le_iff_toNat_le]

theorem suits_iff (lead second : UInt8) :
    suits lead second = true ↔
      if lead.toNat = 0xe0 then 0xa0 ≤ second.toNat ∧ second.toNat ≤ 0xbf
      else if lead.toNat = 0xed then 0x80 ≤ second.toNat ∧ second.toNat ≤ 0x9f
      else if lead.toNat = 0xf0 then 0x90 ≤ second.toNat ∧ second.toNat ≤ 0xbf
      else if lead.toNat = 0xf4 then 0x80 ≤ second.toNat ∧ second.toNat ≤ 0x8f
      else 0x80 ≤ second.toNat ∧ second.toNat ≤ 0xbf := by
  simp only [suits, ← UInt8.toNat_inj]
  repeat' split
  all_goals simp_all [isTail_iff, UInt8.le_iff_toNat_le]

theorem isTail_of_suits {lead second : UInt8} (h : suits lead second = true) :
    isTail second = true := by
  rw [suits_iff] at h
  rw [isTail_iff]
  split_ifs at h <;> omega

inductive Spells : List UInt8 → Nat → Prop where
  | one {a : UInt8} (ha : a.toNat < 0x80) : Spells [a] a.toNat
  | two {a b : UInt8} (ha : 0xc2 ≤ a.toNat ∧ a.toNat ≤ 0xdf) (hb : isTail b = true) :
    Spells [a, b] (a.toNat % 32 * 64 + tailBits b)
  | three {a b c : UInt8} (ha : 0xe0 ≤ a.toNat ∧ a.toNat ≤ 0xef) (hb : suits a b = true)
    (hc : isTail c = true) :
    Spells [a, b, c] ((a.toNat % 16 * 64 + tailBits b) * 64 + tailBits c)
  | four {a b c d : UInt8} (ha : 0xf0 ≤ a.toNat ∧ a.toNat ≤ 0xf4) (hb : suits a b = true)
    (hc : isTail c = true) (hd : isTail d = true) :
    Spells [a, b, c, d] (((a.toNat % 8 * 64 + tailBits b) * 64 + tailBits c) * 64 + tailBits d)

theorem read_of_spells {lead : UInt8} {tail : List UInt8} {n : Nat} (h : Spells (lead :: tail) n)
    (rest : List UInt8) : read lead (tail ++ rest) = .char (Char.ofNat n) tail.length := by
  unfold read
  simp only [UInt8.lt_iff_toNat_lt, UInt8.le_iff_toNat_le, Bool.and_eq_true, decide_eq_true_eq,
    UInt8.reduceToNat]
  cases h with
  | one ha =>
    rw [if_pos ha]
    rfl
  | two ha hb =>
    rw [if_neg (by omega), if_pos ha]
    simp [hb]
  | three ha hb hc =>
    rw [if_neg (by omega), if_neg (by omega), if_pos ha]
    simp [hb, hc]
  | four ha hb hc hd =>
    rw [if_neg (by omega), if_neg (by omega), if_neg (by omega), if_pos ha]
    simp [hb, hc, hd]

theorem spells_of_read {lead : UInt8} {rest : List UInt8} {c : Char} {more : Nat}
    (h : read lead rest = .char c more) :
    ∃ tail n, Spells (lead :: tail) n ∧ rest = tail ++ rest.drop more ∧ c = Char.ofNat n := by
  unfold read at h
  simp only [UInt8.lt_iff_toNat_lt, UInt8.le_iff_toNat_le, Bool.and_eq_true, decide_eq_true_eq,
    UInt8.reduceToNat] at h
  repeat' split at h
  all_goals cases h
  · next ha => exact ⟨[], _, .one ha, rfl, rfl⟩
  · next ha _ b _ hb => exact ⟨[b], _, .two ha hb, rfl, rfl⟩
  · next ha _ b hb _ c _ hc => exact ⟨[b, c], _, .three ha hb hc, rfl, rfl⟩
  · next ha _ b hb _ c hc _ d _ hd => exact ⟨[b, c, d], _, .four ha hb hc hd, rfl, rfl⟩

theorem toNat_ofNat_of_lt {n : Nat} (h : n < 256) : (UInt8.ofNat n).toNat = n :=
  UInt8.toNat_ofNat_of_lt' h

theorem isTail_ofNat (n : Nat) : isTail (UInt8.ofNat (n % 64 + 128)) = true := by
  rw [isTail_iff, toNat_ofNat_of_lt (by omega)]
  omega

theorem tailBits_ofNat (n : Nat) : tailBits (UInt8.ofNat (n % 64 + 128)) = n % 64 := by
  rw [tailBits, toNat_ofNat_of_lt (by omega)]
  omega

/-- The first two of three bytes suit each other: the code point needs three and is no surrogate. -/
theorem suits_of_three {n : Nat} (hlow : 0x800 ≤ n) (hhigh : n < 0x10000)
    (hvalid : n < 0xd800 ∨ 0xdfff < n) :
    suits (UInt8.ofNat (n / 4096 % 16 + 224)) (UInt8.ofNat (n / 64 % 64 + 128)) = true := by
  rw [suits_iff, toNat_ofNat_of_lt (by omega), toNat_ofNat_of_lt (by omega)]
  split_ifs <;> omega

/-- The first two of four bytes suit each other: the code point needs four and is not too great. -/
theorem suits_of_four {n : Nat} (hlow : 0x10000 ≤ n) (hhigh : n < 0x110000) :
    suits (UInt8.ofNat (n / 262144 % 8 + 240)) (UInt8.ofNat (n / 4096 % 64 + 128)) = true := by
  rw [suits_iff, toNat_ofNat_of_lt (by omega), toNat_ofNat_of_lt (by omega)]
  split_ifs <;> omega

theorem spells_encodeChar (c : Char) : Spells (String.utf8EncodeChar c) c.toNat := by
  have hvalid : c.toNat < 0xd800 ∨ 0xdfff < c.toNat ∧ c.toNat < 0x110000 := c.valid
  have hval : c.val.toNat = c.toNat := rfl
  unfold String.utf8EncodeChar
  simp only [hval]
  generalize c.toNat = n at hvalid
  split
  · have ha : (UInt8.ofNat n).toNat = n := toNat_ofNat_of_lt (by omega)
    have hone := Spells.one (a := UInt8.ofNat n) (by omega)
    rwa [ha] at hone
  · split
    · have ha : (UInt8.ofNat (n / 64 % 32 + 192)).toNat = n / 64 % 32 + 192 :=
        toNat_ofNat_of_lt (by omega)
      have htwo := Spells.two (a := UInt8.ofNat (n / 64 % 32 + 192)) (by rw [ha]; omega)
        (isTail_ofNat n)
      rw [ha, tailBits_ofNat] at htwo
      convert htwo using 1
      omega
    · split
      · have ha : (UInt8.ofNat (n / 4096 % 16 + 224)).toNat = n / 4096 % 16 + 224 :=
          toNat_ofNat_of_lt (by omega)
        have hsuits := suits_of_three (n := n) (by omega) (by omega) (by omega)
        have hthree := Spells.three (by rw [ha]; omega) hsuits (isTail_ofNat n)
        rw [ha, tailBits_ofNat, tailBits_ofNat] at hthree
        convert hthree using 1
        omega
      · have ha : (UInt8.ofNat (n / 262144 % 8 + 240)).toNat = n / 262144 % 8 + 240 :=
          toNat_ofNat_of_lt (by omega)
        have hsuits := suits_of_four (n := n) (by omega) (by omega)
        have hfour := Spells.four (by rw [ha]; omega) hsuits (isTail_ofNat (n / 64)) (isTail_ofNat n)
        rw [ha, tailBits_ofNat, tailBits_ofNat, tailBits_ofNat] at hfour
        convert hfour using 1
        omega

theorem ofNat_toNat (b : UInt8) {n : Nat} (h : n = b.toNat) : UInt8.ofNat n = b := by
  rw [h, UInt8.ofNat_toNat]

theorem Spells.valid {bytes : List UInt8} {n : Nat} (h : Spells bytes n) :
    n < 0xd800 ∨ 0xdfff < n ∧ n < 0x110000 := by
  cases h with
  | one ha => omega
  | two ha hb => simp only [tailBits]; omega
  | three ha hb hc =>
    rw [suits_iff] at hb
    simp only [tailBits]
    split_ifs at hb <;> omega
  | four ha hb hc hd =>
    rw [suits_iff] at hb
    simp only [tailBits]
    split_ifs at hb <;> omega

theorem Spells.toNat_ofNat {bytes : List UInt8} {n : Nat} (h : Spells bytes n) :
    (Char.ofNat n).toNat = n := by
  have hvalid : n.isValidChar := h.valid
  rw [Char.ofNat, dif_pos hvalid]
  rfl

theorem Spells.encodeChar {bytes : List UInt8} {n : Nat} (h : Spells bytes n) :
    String.utf8EncodeChar (Char.ofNat n) = bytes := by
  have hval : (Char.ofNat n).val.toNat = n := h.toNat_ofNat
  unfold String.utf8EncodeChar
  simp only [hval]
  cases h with
  | one ha =>
    rw [if_pos (by omega), UInt8.ofNat_toNat]
  | @two a b ha hb =>
    rw [isTail_iff] at hb
    have htb : tailBits b = b.toNat % 64 := rfl
    rw [if_neg (by omega), if_pos (by omega), ofNat_toNat a (by omega), ofNat_toNat b (by omega)]
  | @three a b c ha hb hc =>
    rw [suits_iff] at hb
    rw [isTail_iff] at hc
    have hb' : 0x80 ≤ b.toNat ∧ b.toNat ≤ 0xbf ∧ (a.toNat = 0xe0 → 0xa0 ≤ b.toNat) := by
      split_ifs at hb <;> omega
    have htb : tailBits b = b.toNat % 64 := rfl
    have htc : tailBits c = c.toNat % 64 := rfl
    rw [if_neg (by omega), if_neg (by omega), if_pos (by omega), ofNat_toNat a (by omega),
      ofNat_toNat b (by omega), ofNat_toNat c (by omega)]
  | @four a b c d ha hb hc hd =>
    rw [suits_iff] at hb
    rw [isTail_iff] at hc hd
    have hb' : 0x80 ≤ b.toNat ∧ b.toNat ≤ 0xbf ∧ (a.toNat = 0xf0 → 0x90 ≤ b.toNat) := by
      split_ifs at hb <;> omega
    have htb : tailBits b = b.toNat % 64 := rfl
    have htc : tailBits c = c.toNat % 64 := rfl
    have htd : tailBits d = d.toNat % 64 := rfl
    rw [if_neg (by omega), if_neg (by omega), if_neg (by omega), ofNat_toNat a (by omega),
      ofNat_toNat b (by omega), ofNat_toNat c (by omega), ofNat_toNat d (by omega)]

theorem encodeChar_of_ascii {c : Char} (hc : c.toNat < 0x80) :
    String.utf8EncodeChar c = [UInt8.ofNat c.toNat] := by
  have hval : c.val.toNat = c.toNat := rfl
  unfold String.utf8EncodeChar
  simp only [hval]
  exact if_pos (Nat.le_of_lt_succ hc)

theorem ofNat_toNat_eq_iff {c d : Char} (hc : c.toNat < 0x80) (hd : d.toNat < 0x80) :
    UInt8.ofNat c.toNat = UInt8.ofNat d.toNat ↔ c = d := by
  constructor
  · intro h
    have hsame := congrArg UInt8.toNat h
    rw [toNat_ofNat_of_lt (by omega), toNat_ofNat_of_lt (by omega)] at hsame
    rw [← Char.ofNat_toNat c, hsame, Char.ofNat_toNat]
  · rintro rfl
    rfl

/-- The bytes of a character beyond ASCII are no ASCII. -/
theorem high_of_mem_encodeChar {c : Char} (hc : 0x80 ≤ c.toNat) {b : UInt8}
    (hb : b ∈ String.utf8EncodeChar c) : 0x80 ≤ b.toNat := by
  have hspells := spells_encodeChar c
  generalize String.utf8EncodeChar c = bytes at hb hspells
  generalize c.toNat = n at hc hspells
  cases hspells with
  | one ha =>
    obtain rfl := List.mem_singleton.1 hb
    exact hc
  | two ha hb' =>
    rw [isTail_iff] at hb'
    simp only [List.mem_cons, List.not_mem_nil, or_false] at hb
    rcases hb with rfl | rfl <;> omega
  | three ha hb' hc' =>
    have hsecond := (isTail_iff _).1 (isTail_of_suits hb')
    rw [isTail_iff] at hc'
    simp only [List.mem_cons, List.not_mem_nil, or_false] at hb
    rcases hb with rfl | rfl | rfl <;> omega
  | four ha hb' hc' hd' =>
    have hsecond := (isTail_iff _).1 (isTail_of_suits hb')
    rw [isTail_iff] at hc' hd'
    simp only [List.mem_cons, List.not_mem_nil, or_false] at hb
    rcases hb with rfl | rfl | rfl | rfl <;> omega

theorem encodeChar_ne_nil (c : Char) : String.utf8EncodeChar c ≠ [] := by
  intro hnil
  have hspells := spells_encodeChar c
  rw [hnil] at hspells
  cases hspells

theorem encode_cons (c : Char) (text : List Char) :
    encode (c :: text) = String.utf8EncodeChar c ++ encode text := List.flatMap_cons

theorem decodeFrom_encode (index : Nat) (text : List Char) :
    decodeFrom index [] (encode text) = .ok text := by
  induction text generalizing index with
  | nil =>
    change decodeFrom index [] [] = .ok []
    rw [decodeFrom]
    rfl
  | cons c text ih =>
    have hspells := spells_encodeChar c
    rw [encode_cons]
    cases hbytes : String.utf8EncodeChar c with
    | nil =>
      rw [hbytes] at hspells
      cases hspells
    | cons lead tail =>
      rw [hbytes] at hspells
      rw [List.cons_append, decodeFrom, read_of_spells hspells, Char.ofNat_toNat]
      simp only [List.drop_left]
      rw [decodeFrom_eq, ih]
      rfl

/-- A text written as bytes is read back. -/
theorem decode_encode (text : List Char) : decode (encode text) = .ok text :=
  decodeFrom_encode 0 text

theorem encode_of_decodeFrom {index : Nat} {bytes : List UInt8} {text : List Char}
    (h : decodeFrom index [] bytes = .ok text) : bytes = encode text := by
  induction hsize : bytes.length using Nat.strong_induction_on generalizing index bytes text with
  | h size ih =>
    cases bytes with
    | nil =>
      rw [decodeFrom] at h
      cases h
      rfl
    | cons b rest =>
      rw [decodeFrom] at h
      split at h
      · next c more hread =>
        obtain ⟨tail, n, hspells, hrest, hc⟩ := spells_of_read hread
        rw [decodeFrom_eq] at h
        cases hmore : decodeFrom (index + 1 + more) [] (rest.drop more) with
        | error fault => simp [hmore, Except.map] at h
        | ok after =>
          simp only [hmore, Except.map, List.reverse_singleton, List.singleton_append,
            Except.ok.injEq] at h
          have hlt : (rest.drop more).length < size := by
            rw [← hsize, List.length_drop, List.length_cons]
            omega
          rw [← h, encode_cons, hc, hspells.encodeChar, List.cons_append, ← ih _ hlt hmore rfl, ← hrest]
      · cases h
      · cases h

/-- Bytes that are read as a text are the bytes of that text. -/
theorem decode_eq_ok_iff {bytes : List UInt8} {text : List Char} :
    decode bytes = .ok text ↔ bytes = encode text :=
  ⟨encode_of_decodeFrom, fun h => h ▸ decode_encode text⟩

/-- Behind the bytes of a text its characters are done. -/
theorem lossyFrom_append (done text : List Char) (bytes : List UInt8) :
    lossyFrom done (encode text ++ bytes) = lossyFrom (text.reverse ++ done) bytes := by
  induction text generalizing done with
  | nil => rfl
  | cons c text ih =>
    have hspells := spells_encodeChar c
    rw [encode_cons]
    cases hbytes : String.utf8EncodeChar c with
    | nil => exact absurd hbytes (encodeChar_ne_nil c)
    | cons lead tail =>
      rw [hbytes] at hspells
      rw [List.cons_append, List.cons_append, List.append_assoc, lossyFrom, read_of_spells hspells,
        Char.ofNat_toNat]
      simp only [List.drop_left]
      rw [ih, List.reverse_cons, List.append_assoc, List.singleton_append]

/-- Nothing is replaced in the bytes of a text. -/
theorem lossy_encode (text : List Char) : lossy (encode text) = text := by
  have h := lossyFrom_append [] text []
  rwa [List.append_nil, List.append_nil, lossyFrom, List.reverse_reverse] at h

theorem read_of_too_high {lead : UInt8} (h : 0xf4 < lead) (rest : List UInt8) :
    read lead rest = .refused 1 := by
  have hlead : 244 < lead.toNat := UInt8.lt_iff_toNat_lt.1 h
  have hlow : ¬ lead < 0x80 := by
    intro hlow
    have hlt : lead.toNat < 128 := UInt8.lt_iff_toNat_lt.1 hlow
    omega
  have habove (first last : UInt8) (hlast : last.toNat ≤ 244) :
      ¬ (decide (first ≤ lead) && decide (lead ≤ last)) = true := by
    simp only [Bool.and_eq_true, decide_eq_true_eq, UInt8.le_iff_toNat_le]
    omega
  unfold read
  rw [if_neg hlow, if_neg (habove _ _ (by decide)), if_neg (habove _ _ (by decide)),
    if_neg (habove _ _ (by decide))]

/-- A byte that is in no character is replaced, and the text goes on behind it. -/
theorem lossy_of_too_high {byte : UInt8} (h : 0xf4 < byte) (front back : List Char) :
    lossy (encode front ++ byte :: encode back) = front ++ replacement :: back := by
  have hback := lossyFrom_append (replacement :: front.reverse) back []
  rw [List.append_nil, lossyFrom] at hback
  rw [lossy, lossyFrom_append, List.append_nil, lossyFrom, read_of_too_high h]
  simp only [Nat.sub_self, List.drop_zero]
  rw [hback, List.reverse_append, List.reverse_reverse, List.reverse_cons, List.reverse_reverse,
    List.append_assoc, List.singleton_append]

/-- Bytes come back from their text exactly if nothing had to be replaced in them. -/
theorem encode_lossy_eq_iff {bytes : List UInt8} :
    encode (lossy bytes) = bytes ↔ ∃ text, decode bytes = .ok text := by
  constructor
  · intro h
    exact ⟨lossy bytes, decode_eq_ok_iff.2 h.symm⟩
  · rintro ⟨text, htext⟩
    rw [decode_eq_ok_iff.1 htext, lossy_encode]

end RemoteEval.Text.Utf8
