import RemoteEval.Proofs.Framing.Characters
import RemoteEval.Proofs.Response.Nesting

/-!
What an event is for the scan that cuts it out of the stream, and for the reader that takes it
apart. The scan counts open parentheses over bytes, the reader stacks lists over tokens; character
by character they stand at the same place and at the same depth. So the bytes up to a cut are one
list for the reader, and a text that is one list for the reader is cut at its end.
-/
namespace RemoteEval.Framing

open Text Response

def Scan.At (s : Scan) : Place → Prop
  | .outside => s.inString = false ∧ s.escaped = false
  | .string => s.inString = true ∧ s.escaped = false
  | .escape => s.inString = true ∧ s.escaped = true

/-- How a scan of an open form and a reader at the same place take one character: both go on, with
as many lists to be closed; or it closes the form for both. -/
inductive Taken (s : Scan) (inside : Inside) (c : Char) : Prop where
  | passed (t : Scan) (next : Inside) (hstep : s.stepChar c = .inl t) (hplace : t.At next.place)
    (hopen : 0 < t.depth) (hpos : t.pos = s.pos + (String.utf8EncodeChar c).length)
    (hend : ∀ text, (inside.tokens (c :: text)).2 = (next.tokens text).2)
    (hcloses : ∀ text, Closes s.depth (inside.tokens (c :: text)).1 ↔
      Closes t.depth (next.tokens text).1)
  | closed (hparen : c = ')') (hstep : s.stepChar c = .inr (.closed (s.pos + 1)))
    (hend : ∀ text, (inside.tokens (c :: text)).2 = (Inside.nothing.tokens text).2)
    (hcloses : ∀ text, Closes s.depth (inside.tokens (c :: text)).1 ↔
      (Inside.nothing.tokens text).1 = [])

/-- A character that ends no token is passed by both, at the same depth. -/
theorem Taken.of_same {s t : Scan} {inside : Inside} {c : Char} (next : Inside)
    (hstep : s.stepChar c = .inl t) (hplace : t.At next.place) (hopen : 0 < s.depth)
    (hdepth : t.depth = s.depth) (hpos : t.pos = s.pos + (String.utf8EncodeChar c).length)
    (hsame : ∀ text, inside.tokens (c :: text) = next.tokens text) : Taken s inside c := by
  refine .passed t next hstep hplace (hdepth ▸ hopen) hpos (fun text => ?_) fun text => ?_
  · rw [hsame]
  · rw [hsame, hdepth]

theorem Scan.stepChar_plain {s : Scan} (hstring : s.inString = false) {c : Char} (hbreak : c ≠ '\n')
    (hquote : c ≠ '"') (hleft : c ≠ '(') (hright : c ≠ ')') :
    s.stepChar c = .inl { s with pos := s.pos + (String.utf8EncodeChar c).length } := by
  simp [Scan.stepChar, hstring, hbreak, hquote, hleft, hright]

theorem taken_parenRight {s : Scan} (hplace : s.At .outside) (hopen : 0 < s.depth) :
    Taken s .nothing ')' := by
  have hstring := hplace.1
  have hend (text : List Char) :
      (Inside.nothing.tokens (')' :: text)).2 = (Inside.nothing.tokens text).2 := by
    rw [Inside.tokens_parenRight]
  by_cases hlast : s.depth ≤ 1
  · refine .closed rfl ?_ hend fun text => ?_
    · simp only [Scan.stepChar, hstring, hlast, Bool.false_eq_true, if_false, if_true]
      rfl
    · have hone : s.depth = 1 := by omega
      rw [Inside.tokens_parenRight, hone]
      exact Iff.rfl
  · refine .passed { s with pos := s.pos + 1, depth := s.depth - 1 } .nothing ?_ hplace
      (by simp only; omega) rfl hend fun text => ?_
    · simp only [Scan.stepChar, hstring, hlast, Bool.false_eq_true, if_false, if_true]
      rfl
    · obtain ⟨depth, hdepth⟩ : ∃ depth, s.depth = depth + 2 := ⟨s.depth - 2, by omega⟩
      rw [Inside.tokens_parenRight]
      simp only [hdepth]
      exact Iff.rfl

theorem taken_nothing {s : Scan} (hplace : s.At .outside) (hopen : 0 < s.depth) {c : Char}
    (hc : c ≠ '\n') : Taken s .nothing c := by
  obtain ⟨hstring, hescaped⟩ := hplace
  cases hdelimiter : isDelimiter c with
  | false =>
    have hletter := hdelimiter
    simp only [isDelimiter, Bool.or_eq_false_iff, beq_eq_false_iff_ne] at hletter
    have hstep := Scan.stepChar_plain hstring hc hletter.2 hletter.1.1.2 hletter.1.2
    exact .of_same (.symbol [c]) hstep ⟨hstring, hescaped⟩ hopen rfl rfl
      (Inside.tokens_letter hdelimiter)
  | true =>
    rcases isDelimiter_cases hdelimiter with hblank | rfl | rfl | rfl
    · have hstep := Scan.stepChar_plain hstring hc (ne_of_isBlank hblank (by decide))
        (ne_of_isBlank hblank (by decide)) (ne_of_isBlank hblank (by decide))
      exact .of_same .nothing hstep ⟨hstring, hescaped⟩ hopen rfl rfl
        (Inside.tokens_blank hblank)
    · refine .passed { s with pos := s.pos + 1, depth := s.depth + 1 } .nothing ?_
        ⟨hstring, hescaped⟩ (Nat.succ_pos _) rfl (fun text => ?_) fun text => ?_
      · simp only [Scan.stepChar, hstring]
        rfl
      · rw [Inside.tokens_parenLeft]
      · rw [Inside.tokens_parenLeft]
        exact Iff.rfl
    · exact taken_parenRight ⟨hstring, hescaped⟩ hopen
    · have hstep : s.stepChar '"' = .inl { s with pos := s.pos + 1, inString := true } := by
        simp only [Scan.stepChar, hstring]
        rfl
      exact .of_same (.string []) hstep ⟨rfl, hescaped⟩ hopen rfl rfl Inside.tokens_quote

/-- A symbol that a character ends is a token more, which closes nothing. -/
theorem taken_symbol {s : Scan} (hplace : s.At .outside) (hopen : 0 < s.depth) {c : Char}
    (hc : c ≠ '\n') (done : List Char) : Taken s (.symbol done) c := by
  cases hdelimiter : isDelimiter c with
  | false =>
    have hletter := hdelimiter
    simp only [isDelimiter, Bool.or_eq_false_iff, beq_eq_false_iff_ne] at hletter
    have hstep := Scan.stepChar_plain hplace.1 hc hletter.2 hletter.1.1.2 hletter.1.2
    exact .of_same (.symbol (c :: done)) hstep hplace hopen rfl rfl
      (Inside.tokens_symbol_letter hdelimiter done)
  | true =>
    have hend (text : List Char) :
        ((Inside.symbol done).tokens (c :: text)).2 = (Inside.nothing.tokens (c :: text)).2 := by
      rw [Inside.tokens_symbol_delimiter hdelimiter]
    have hcloses (text : List Char) : Closes s.depth ((Inside.symbol done).tokens (c :: text)).1 ↔
        Closes s.depth (Inside.nothing.tokens (c :: text)).1 := by
      rw [Inside.tokens_symbol_delimiter hdelimiter]
      exact Iff.rfl
    cases taken_nothing hplace hopen hc with
    | passed t next hstep hplace' hopen' hpos hend' hcloses' =>
      exact .passed t next hstep hplace' hopen' hpos (fun text => (hend text).trans (hend' text))
        fun text => (hcloses text).trans (hcloses' text)
    | closed hparen hstep hend' hcloses' =>
      exact .closed hparen hstep (fun text => (hend text).trans (hend' text))
        fun text => (hcloses text).trans (hcloses' text)

theorem Scan.stepChar_string {s : Scan} (hstring : s.inString = true) {c : Char}
    (hbreak : c ≠ '\n') :
    s.stepChar c = .inl { s with
      pos := s.pos + (String.utf8EncodeChar c).length
      inString := s.escaped || c != '"'
      escaped := !s.escaped && c == '\\' } := by
  simp [Scan.stepChar, hstring, hbreak]

theorem taken_string {s : Scan} (hplace : s.At .string) (hopen : 0 < s.depth) {c : Char}
    (hc : c ≠ '\n') (done : List Char) : Taken s (.string done) c := by
  obtain ⟨hstring, hescaped⟩ := hplace
  have hstep := Scan.stepChar_string hstring hc
  by_cases hquote : c = '"'
  · subst hquote
    refine .passed _ .nothing hstep ?_ hopen rfl (fun text => ?_) fun text => ?_
    · simp [Scan.At, Inside.place, hescaped]
    · rw [Inside.tokens_string_quote]
    · rw [Inside.tokens_string_quote]
      exact Iff.rfl
  · by_cases hbackslash : c = '\\'
    · subst hbackslash
      refine .of_same (.escape done) hstep ?_ hopen rfl rfl
        (Inside.tokens_string_backslash done)
      simp [Scan.At, Inside.place, hescaped]
    · refine .of_same (.string (c :: done)) hstep ?_ hopen rfl rfl
        (Inside.tokens_string_plain hquote hbackslash done)
      simp [Scan.At, Inside.place, hescaped, hquote, hbackslash]

theorem taken_escape {s : Scan} (hplace : s.At .escape) (hopen : 0 < s.depth) {c : Char}
    (hc : c ≠ '\n') (done : List Char) : Taken s (.escape done) c := by
  obtain ⟨hstring, hescaped⟩ := hplace
  refine .of_same (.string (unescapeChar c :: done)) (Scan.stepChar_string hstring hc) ?_
    hopen rfl rfl (Inside.tokens_escape c done)
  simp [Scan.At, Inside.place, hescaped]

theorem taken {s : Scan} {inside : Inside} (hplace : s.At inside.place) (hopen : 0 < s.depth)
    {c : Char} (hc : c ≠ '\n') : Taken s inside c := by
  cases inside with
  | nothing => exact taken_nothing hplace hopen hc
  | symbol done => exact taken_symbol hplace hopen hc done
  | string done => exact taken_string hplace hopen hc done
  | escape done => exact taken_escape hplace hopen hc done

/-- If the last byte of a text closes the form, the last token closes the open lists. -/
theorem closes_of_pass {s : Scan} {inside : Inside} (hplace : s.At inside.place)
    (hopen : 0 < s.depth) {text : List Char}
    (h : s.pass (Utf8.encode text) = .inr (.closed (s.pos + (Utf8.encode text).length))) :
    (inside.tokens text).2 = none ∧ Closes s.depth (inside.tokens text).1 := by
  induction text generalizing s inside with
  | nil => cases h
  | cons c text ih =>
    have hpass := Scan.pass_encode_cons s c text []
    rw [List.append_nil, List.append_nil, h, Utf8.encode_cons, List.length_append] at hpass
    by_cases hc : c = '\n'
    · subst hc
      cases hpass
    · cases taken hplace hopen hc with
      | passed t next hstep hplace' hopen' hpos hend hcloses =>
        rw [hstep, ← Nat.add_assoc, ← hpos] at hpass
        have hrest := ih hplace' hopen' hpass.symm
        exact ⟨(hend text).trans hrest.1, (hcloses text).2 hrest.2⟩
      | closed hparen hstep hend hcloses =>
        subst hparen
        rw [hstep] at hpass
        -- The form is closed by its last byte, so nothing is left of the text.
        have hlength : (Utf8.encode text).length = 0 := by
          have hsize : (String.utf8EncodeChar ')').length = 1 := rfl
          simp only [Sum.inr.injEq, Cut.closed.injEq] at hpass
          omega
        have hempty : text = [] := by
          cases text with
          | nil => rfl
          | cons d text =>
            have hne := List.length_pos_iff.2 (Utf8.encodeChar_ne_nil d)
            rw [Utf8.encode_cons, List.length_append] at hlength
            omega
        subst hempty
        exact ⟨hend [], (hcloses []).2 rfl⟩

/-- If the last token of a text closes the open lists, its last byte closes the form, whatever
bytes follow. -/
theorem pass_of_closes {s : Scan} {inside : Inside} (hplace : s.At inside.place)
    (hopen : 0 < s.depth) {text : List Char} (hbreak : '\n' ∉ text)
    (hlast : text.getLast? = some ')') (hend : (inside.tokens text).2 = none)
    (hcloses : Closes s.depth (inside.tokens text).1) (rest : List UInt8) :
    s.pass (Utf8.encode text ++ rest) =
      .inr (.closed (s.pos + (Utf8.encode text).length)) := by
  induction text generalizing s inside with
  | nil => simp at hlast
  | cons c text ih =>
    simp only [List.mem_cons, not_or] at hbreak
    rw [Scan.pass_encode_cons, Utf8.encode_cons, List.length_append, ← Nat.add_assoc]
    cases taken hplace hopen (Ne.symm hbreak.1) with
    | passed t next hstep hplace' hopen' hpos hend' hcloses' =>
      have hcloses := (hcloses' text).1 hcloses
      have hne : text ≠ [] := by
        rintro rfl
        cases next <;> exact hcloses
      rw [hstep, ← hpos]
      refine ih hplace' hopen' hbreak.2 ?_ ((hend' text).symm.trans hend) hcloses
      rwa [List.getLast?_cons_of_ne_nil hne] at hlast
    | closed hparen hstep hend' hcloses' =>
      have hnil := (hcloses' text).1 hcloses
      have hempty : text = [] := by
        -- The text ends with a parenthesis, which would be a token behind the last.
        by_contra hne
        rw [List.getLast?_cons_of_ne_nil hne] at hlast
        have hparen := Inside.getLast?_tokens hlast ((hend' text).symm.trans hend)
        simp [hnil] at hparen
      subst hempty
      subst hparen
      rw [hstep]
      rfl

/-- What lies behind a cut has no part in it. -/
theorem Scan.pass_take {s : Scan} {bytes : List UInt8} {size : Nat}
    (h : s.pass bytes = .inr (.closed (s.pos + size))) :
    s.pass (bytes.take size) = .inr (.closed (s.pos + size)) := by
  have hsize := Scan.pass_cut h
  have happend := Scan.pass_append s (bytes.take size) (bytes.drop size)
  rw [List.take_append_drop, h] at happend
  cases hfront : s.pass (bytes.take size) with
  | inr cut =>
    rw [hfront] at happend
    exact happend.symm
  | inl t =>
    rw [hfront] at happend
    have hpos := Scan.pass_pos hfront
    have hback := Scan.pass_cut happend.symm
    simp only [List.length_take] at hsize hpos hback
    omega

theorem exists_parenLeft_of_head {text : List Char}
    (h : (Utf8.encode text).head? = some openParen) : ∃ inner, text = '(' :: inner := by
  cases text with
  | nil => simp [Utf8.encode] at h
  | cons c inner =>
    rw [Utf8.encode_cons, List.head?_append_of_ne_nil _ (Utf8.encodeChar_ne_nil c)] at h
    by_cases hascii : c.toNat < 0x80
    · rw [Utf8.encodeChar_of_ascii hascii, List.head?_cons, Option.some.injEq] at h
      have hsame : UInt8.ofNat c.toNat = UInt8.ofNat '('.toNat := h
      obtain rfl := (Utf8.ofNat_toNat_eq_iff hascii (by decide)).1 hsame
      exact ⟨inner, rfl⟩
    · have hmem := List.mem_of_head? h
      have hhigh := Utf8.high_of_mem_encodeChar (Nat.le_of_not_lt hascii) hmem
      simp [openParen] at hhigh

/-- The scan of a text that starts with a parenthesis, after that. -/
theorem Scan.pass_parenLeft (inner : List Char) (rest : List UInt8) :
    Scan.pass {} (Utf8.encode ('(' :: inner) ++ rest) =
      Scan.pass { pos := 1, depth := 1 } (Utf8.encode inner ++ rest) := rfl

/-- The text of the bytes up to a cut is one list of tokens. -/
theorem exists_list_of_cut {bytes : List UInt8} {size : Nat} {text : List Char}
    (hstart : bytes.head? = some openParen) (hcut : Scan.resume {} bytes = .inr (.closed size))
    (htext : Utf8.decode (bytes.take size) = .ok text) :
    ∃ inner, text = '(' :: inner ∧ (Inside.nothing.tokens inner).2 = none ∧
      Closes 1 (Inside.nothing.tokens inner).1 := by
  have hpass : Scan.pass {} bytes = .inr (.closed (({} : Scan).pos + size)) := by
    rw [Nat.zero_add]
    exact hcut
  have hsize := Scan.pass_cut hpass
  have hfront := Scan.pass_take hpass
  have hbytes := Utf8.decode_eq_ok_iff.1 htext
  have hlength : size = (Utf8.encode text).length := by
    rw [← hbytes, List.length_take]
    simp only at hsize
    omega
  have hhead : (Utf8.encode text).head? = some openParen := by
    rw [← hbytes, List.head?_take, if_neg (by simp only at hsize; omega)]
    exact hstart
  obtain ⟨inner, rfl⟩ := exists_parenLeft_of_head hhead
  have hplace : Scan.At { pos := 1, depth := 1 } (Inside.nothing).place := ⟨rfl, rfl⟩
  refine ⟨inner, rfl, closes_of_pass hplace Nat.one_pos ?_⟩
  have hinner := Scan.pass_parenLeft inner []
  rw [List.append_nil, List.append_nil, ← hbytes, hfront, hlength, Utf8.encode_cons] at hinner
  simpa [Nat.add_comm, show String.utf8EncodeChar '(' = [openParen] from rfl] using hinner.symm

theorem tokenize_parenLeft {inner : List Char} (hend : (Inside.nothing.tokens inner).2 = none) :
    tokenize ('(' :: inner) = (.parenLeft :: (Inside.nothing.tokens inner).1, none) := by
  rw [← Inside.tokens_nothing, Inside.tokens_parenLeft, hend]

theorem nestsBeyond_parenLeft (bound : Nat) (inner : List Char) :
    NestsBeyond bound ('(' :: inner) ↔ Exceeds bound 1 (parensOf (Inside.nothing.tokens inner).1) := by
  have hparens : Place.outside.parens ('(' :: inner) = '(' :: Place.outside.parens inner := rfl
  rw [NestsBeyond, hparens, exceeds_parenLeft, parensOf_tokens, or_iff_right (Nat.not_lt_zero bound)]
  rfl

/-- One list is read whole, unless it nests deeper than the bound. -/
theorem read_of_closes {inner : List Char} (hend : (Inside.nothing.tokens inner).2 = none)
    (hcloses : Closes 1 (Inside.nothing.tokens inner).1) :
    NestsBeyond maxDepth ('(' :: inner) ∧ Response.read ('(' :: inner) = .error .tooDeep ∨
      ¬ NestsBeyond maxDepth ('(' :: inner) ∧
        ∃ items, Response.read ('(' :: inner) = ofDatum (.list items) := by
  have hdatum (tokens : List Token) :
      readDatum none [] (.parenLeft :: tokens) = readDatum none [[]] tokens := rfl
  rw [nestsBeyond_parenLeft, Response.read, tokenize_parenLeft hend]
  dsimp only
  rw [hdatum]
  rcases readDatum_of_closes none [] [] (by decide) hcloses with
    ⟨hdeep, hread⟩ | ⟨hdeep, items, hread⟩
  · exact .inl ⟨hdeep, by rw [hread]⟩
  · exact .inr ⟨hdeep, items, by rw [hread]⟩

/-- A text of one line in parentheses that the reader takes for one datum is cut at its end. -/
theorem resume_of_readDatum {text : List Char} {tokens : List Token} {datum : Datum}
    (hbreak : '\n' ∉ text) (hstart : text.head? = some '(') (hlast : text.getLast? = some ')')
    (htokens : tokenize text = (tokens, none)) (hread : readDatum none [] tokens = .ok (datum, []))
    (rest : List UInt8) :
    Scan.resume {} (Utf8.encode text ++ rest) = .inr (.closed (Utf8.encode text).length) := by
  obtain ⟨inner, rfl⟩ : ∃ inner, text = '(' :: inner := by
    cases text with
    | nil => cases hstart
    | cons c inner => exact ⟨inner, by rw [Option.some.inj hstart]⟩
  have hinner := (Inside.tokens_parenLeft inner).symm.trans htokens
  obtain ⟨rfl, hend⟩ := Prod.mk.inj hinner
  have hcloses : Closes 1 (Inside.nothing.tokens inner).1 := closes_of_readDatum hread
  have hne : inner ≠ [] := by
    rintro rfl
    exact hcloses
  have hplace : Scan.At { pos := 1, depth := 1 } (Inside.nothing).place := ⟨rfl, rfl⟩
  rw [List.getLast?_cons_of_ne_nil hne] at hlast
  rw [Scan.resume, List.drop_zero, Scan.pass_parenLeft,
    pass_of_closes hplace Nat.one_pos (fun h => hbreak (List.mem_cons_of_mem _ h)) hlast hend
      hcloses rest, Utf8.encode_cons, List.length_append]
  rfl

/-- The cutter of events and their reader agree on what one event is. The text up to a cut is one
list, which the reader takes for an event or refuses for its shape, unless it nests too deep. And
a text of one line that the reader takes for one datum in parentheses is cut at its end, whatever
follows it. -/
theorem cut_and_reader_agree :
    (∀ bytes size text, bytes.head? = some openParen →
      Scan.resume {} bytes = .inr (.closed size) → Utf8.decode (bytes.take size) = .ok text →
        (tokenize text).2 = none ∧ OneList (tokenize text).1 ∧
        (Response.parse text = .unrecognized (String.ofList text) .tooDeep ↔
          NestsBeyond maxDepth text) ∧
        (¬ NestsBeyond maxDepth text →
          (∃ id, Response.parse text = .success id) ∨
          (∃ id message stack, Response.parse text = .failure id message stack) ∨
          ∃ reason, reason.isShape = true ∧
            Response.parse text = .unrecognized (String.ofList text) reason)) ∧
    ∀ text rest tokens datum, '\n' ∉ text → text.head? = some '(' → text.getLast? = some ')' →
      tokenize text = (tokens, none) → readDatum none [] tokens = .ok (datum, []) →
        Scan.resume {} (Utf8.encode text ++ rest) = .inr (.closed (Utf8.encode text).length) := by
  constructor
  · intro bytes size text hstart hcut htext
    obtain ⟨inner, rfl, hend, hcloses⟩ := exists_list_of_cut hstart hcut htext
    refine ⟨?_, ?_, ?_⟩
    · rw [tokenize_parenLeft hend]
    · rw [tokenize_parenLeft hend]
      exact oneList_of_closes hcloses
    · rcases read_of_closes hend hcloses with ⟨hdeep, hread⟩ | ⟨hdeep, items, hread⟩
      · refine ⟨iff_of_true ?_ hdeep, fun hflat => absurd hdeep hflat⟩
        simp only [Response.parse, hread]
      · simp only [Response.parse, hread]
        rcases ofDatum_list items with ⟨id, hevent⟩ | ⟨id, message, stack, hevent⟩ |
          ⟨reason, hshape, hevent⟩
        · rw [hevent]
          exact ⟨iff_of_false (by simp) hdeep, fun _ => .inl ⟨id, rfl⟩⟩
        · rw [hevent]
          exact ⟨iff_of_false (by simp) hdeep, fun _ => .inr (.inl ⟨id, message, stack, rfl⟩)⟩
        · have hreason : reason ≠ .tooDeep := by
            rintro rfl
            cases hshape
          rw [hevent]
          exact ⟨iff_of_false (by simpa using hreason) hdeep,
            fun _ => .inr (.inr ⟨reason, hshape, rfl⟩)⟩
  · intro text rest tokens datum hbreak hstart hlast htokens hread
    exact resume_of_readDatum hbreak hstart hlast htokens hread rest

/-- The text `(a"é\")"b\)`, with a parenthesis and an escaped quote in its string and a backslash
in its symbol. -/
theorem cut_and_reader_agree_on_backslashes :
    let text := ['(', 'a', '"', 'é', '\\', '"', ')', '"', 'b', '\\', ')']
    let tokens := [.parenLeft, .symbol (String.ofList ['a']),
      .string (String.ofList ['é', '"', ')']), .symbol (String.ofList ['b', '\\']), .parenRight]
    let items := [.symbol (String.ofList ['a']), .string (String.ofList ['é', '"', ')']),
      .symbol (String.ofList ['b', '\\'])]
    Utf8.encode text = [0x28, 0x61, 0x22, 0xc3, 0xa9, 0x5c, 0x22, 0x29, 0x22, 0x62, 0x5c, 0x29] ∧
      tokenize text = (tokens, none) ∧ readDatum none [] tokens = .ok (.list items, []) ∧
      Scan.resume {} (Utf8.encode text ++ [closeParen]) = .inr (.closed 12) ∧
      OneList tokens ∧ ¬ NestsBeyond maxDepth text := by
  intro text tokens items
  have htokens : tokenize text = (tokens, none) := rfl
  have hread : readDatum none [] tokens = .ok (.list items, []) := rfl
  have hcut : Scan.resume {} (Utf8.encode text ++ [closeParen]) = .inr (.closed 12) :=
    cut_and_reader_agree.2 text [closeParen] tokens (.list items) (by decide) rfl rfl htokens hread
  obtain ⟨-, hlist, hdeep, -⟩ := cut_and_reader_agree.1 _ 12 text rfl hcut
    (Utf8.decode_eq_ok_iff.2 rfl)
  rw [htokens] at hlist
  exact ⟨rfl, htokens, hread, hcut, hlist, fun h => nomatch hdeep.2 h⟩

end RemoteEval.Framing
