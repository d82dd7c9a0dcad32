import RemoteEval.Proofs.Response.Lexing
import RemoteEval.Response.Basic

/-!
The grammar of response events. A datum is written with certain tokens, and the reader of data takes
just these off the tokens that it is given. So a text is read as an answer exactly if it falls into
the tokens of that answer, and what stands between the tokens makes no difference.
-/
namespace RemoteEval.Response

namespace Datum

mutual

def tokens : Datum → List Token
  | .string text => [.string text]
  | .symbol name => [.symbol name]
  | .list items => .parenLeft :: (allTokens items ++ [.parenRight])

def allTokens : List Datum → List Token
  | [] => []
  | item :: items => item.tokens ++ allTokens items

end

theorem allTokens_append (items more : List Datum) :
    allTokens (items ++ more) = allTokens items ++ allTokens more := by
  induction items with
  | nil => rfl
  | cons item items ih => rw [List.cons_append, allTokens, allTokens, ih, List.append_assoc]

theorem allTokens_strings (stack : List String) :
    allTokens (stack.map .string) = stack.map .string := by
  induction stack with
  | nil => rfl
  | cons text stack ih => rw [List.map_cons, List.map_cons, allTokens, ih, tokens]; rfl

def openTokens : OpenLists → List Token
  | [] => []
  | items :: outer => openTokens outer ++ .parenLeft :: allTokens items.reverse

end Datum

open Datum

/-- A datum that is put into an open list stands behind what has been read of the lists. -/
theorem openTokens_of_place {datum : Datum} {lists next : OpenLists}
    (h : place datum lists = .inr next) : openTokens next = openTokens lists ++ datum.tokens := by
  cases lists with
  | nil => cases h
  | cons items outer =>
    cases h
    rw [openTokens, openTokens, List.reverse_cons, allTokens_append]
    simp [allTokens]

theorem eq_of_place {datum found : Datum} {lists : OpenLists}
    (h : place datum lists = .inl found) : lists = [] ∧ found = datum := by
  cases lists with
  | nil =>
    cases h
    exact ⟨rfl, rfl⟩
  | cons items outer => cases h

theorem openTokens_parenRight (items : List Datum) (outer : OpenLists) (rest : List Token) :
    openTokens (items :: outer) ++ .parenRight :: rest =
      openTokens outer ++ ((Datum.list items.reverse).tokens ++ rest) := by
  simp [openTokens, tokens]

/-- The reader of data takes the tokens of a datum, those of the open lists included, and leaves the
others. -/
theorem tokens_of_readDatum {unfinished : Option Unfinished} {lists : OpenLists}
    {tokens rest : List Token} {datum : Datum}
    (h : readDatum unfinished lists tokens = .ok (datum, rest)) :
    openTokens lists ++ tokens = datum.tokens ++ rest := by
  fun_induction readDatum unfinished lists tokens with
  | case1 => cases h
  | case2 => cases h
  | case3 => cases h
  | case4 lists tokens hroom ih => simpa [openTokens, allTokens] using ih h
  | case5 => cases h
  | case6 items outer tokens found hplace =>
    obtain ⟨rfl, rfl⟩ := eq_of_place hplace
    cases h
    exact openTokens_parenRight items [] rest
  | case7 items outer tokens next hplace ih =>
    rw [openTokens_parenRight, ← ih h, openTokens_of_place hplace, List.append_assoc]
  | case8 lists text tokens found hplace =>
    obtain ⟨rfl, rfl⟩ := eq_of_place hplace
    cases h
    rfl
  | case9 lists text tokens next hplace ih =>
    rw [← ih h, openTokens_of_place hplace, List.append_assoc]
    rfl
  | case10 lists name tokens found hplace =>
    obtain ⟨rfl, rfl⟩ := eq_of_place hplace
    cases h
    rfl
  | case11 lists name tokens next hplace ih =>
    rw [← ih h, openTokens_of_place hplace, List.append_assoc]
    rfl

def successTokens (id : RequestId) : List Token :=
  [.parenLeft, .symbol "success", .string id, .parenRight]

def failureTokens (id : RequestId) (message : String) (stack : List String) : List Token :=
  [.parenLeft, .symbol "failure", .string id, .string message, .parenLeft] ++
    (stack.map .string ++ [.parenRight, .parenRight])

inductive EventTokens : Response → List Token → Prop where
  | success (id : RequestId) : EventTokens (.success id) (successTokens id)
  | failure (id : RequestId) (message : String) (stack : List String) :
    EventTokens (.failure id message stack) (failureTokens id message stack)

theorem mapM_frame_strings (stack : List String) : (stack.map .string).mapM frame = .ok stack := by
  induction stack with
  | nil => rfl
  | cons text stack ih =>
    rw [List.map_cons, List.mapM_cons, ih]
    rfl

theorem eq_strings_of_mapM_frame {frames : List Datum} {stack : List String}
    (h : frames.mapM frame = .ok stack) : frames = stack.map .string := by
  induction frames generalizing stack with
  | nil =>
    cases h
    rfl
  | cons datum frames ih =>
    rw [List.mapM_cons] at h
    cases datum with
    | string text =>
      cases hframes : frames.mapM frame with
      | error why =>
        rw [hframes] at h
        cases h
      | ok rest =>
        rw [hframes] at h
        cases h
        rw [ih hframes]
        rfl
    | symbol name => cases h
    | list items => cases h

/-- A datum that is an answer has the tokens of the answer. -/
theorem eventTokens_of_ofDatum {datum : Datum} {response : Response}
    (h : ofDatum datum = .ok response) : EventTokens response datum.tokens := by
  unfold ofDatum at h
  split at h
  · next id =>
    cases h
    exact .success id
  · next id message frames =>
    cases hframes : frames.mapM frame with
    | error why =>
      rw [hframes] at h
      cases h
    | ok stack =>
      rw [hframes] at h
      cases h
      obtain rfl := eq_strings_of_mapM_frame hframes
      have htokens : (Datum.list [.symbol "failure", .string id, .string message,
          .list (stack.map .string)]).tokens = failureTokens id message stack := by
        simp [tokens, allTokens, allTokens_strings, failureTokens]
      rw [htokens]
      exact .failure id message stack
  · cases h
  · cases h
  · cases h

theorem readDatum_strings (unfinished : Option Unfinished) (stack : List String)
    (items : List Datum) (outer : OpenLists) (rest : List Token) :
    readDatum unfinished (items :: outer) (stack.map .string ++ rest) =
      readDatum unfinished (((stack.map .string).reverse ++ items) :: outer) rest := by
  induction stack generalizing items with
  | nil => rfl
  | cons text stack ih =>
    refine (ih (.string text :: items)).trans ?_
    rw [List.map_cons, List.reverse_cons, List.append_assoc]
    rfl

/-- The tokens of an answer are read as one datum, and that as the answer. -/
theorem EventTokens.datum {response : Response} {tokens : List Token}
    (h : EventTokens response tokens) :
    ∃ datum, readDatum none [] tokens = .ok (datum, []) ∧ ofDatum datum = .ok response := by
  cases h with
  | success id => exact ⟨_, rfl, rfl⟩
  | failure id message stack =>
    refine ⟨.list [.symbol "failure", .string id, .string message, .list (stack.map .string)],
      ?_, ?_⟩
    · refine (readDatum_strings none stack []
        [[.string message, .string id, .symbol "failure"]] _).trans ?_
      rw [List.append_nil, readDatum, place, List.reverse_reverse]
      rfl
    · rw [ofDatum, mapM_frame_strings]
      rfl

/-- What a text is read as is decided by the tokens that it falls into. -/
theorem Lexes.read_eq {text other : List Char} {tokens : List Token}
    {unfinished : Option Unfinished} (htext : Lexes text tokens unfinished)
    (hother : Lexes other tokens unfinished) : read other = read text := by
  rw [read, read, htext.tokenize_eq, hother.tokenize_eq]

/-- A text is read as an answer exactly if it falls into the tokens of the answer. -/
theorem read_eq_ok_iff {text : List Char} {response : Response} :
    read text = .ok response ↔ ∃ tokens, EventTokens response tokens ∧ Lexes text tokens none := by
  constructor
  · intro h
    obtain ⟨tokens, unfinished, hlexes⟩ := exists_lexes text
    rw [read, hlexes.tokenize_eq] at h
    dsimp only at h
    split at h
    · cases h
    · cases h
    · next datum hread =>
      cases unfinished with
      | some what => cases h
      | none =>
        have htokens := tokens_of_readDatum hread
        rw [List.append_nil] at htokens
        obtain rfl : tokens = datum.tokens := htokens
        exact ⟨_, eventTokens_of_ofDatum h, hlexes⟩
  · rintro ⟨tokens, hevent, hlexes⟩
    obtain ⟨datum, hread, hdatum⟩ := hevent.datum
    simp only [read, hlexes.tokenize_eq, hread, hdatum]

/-- A text gives an answer if it is read as one, and is kept with the reason if it is not. -/
theorem parse_cases (text : List Char) :
    (∃ response, read text = .ok response ∧ parse text = response ∧ response.id?.isSome = true) ∨
      ∃ reason, read text = .error reason ∧
        parse text = .unrecognized (String.ofList text) reason := by
  cases hread : read text with
  | error reason => exact .inr ⟨reason, rfl, by rw [parse, hread]⟩
  | ok response =>
    obtain ⟨tokens, hevent, -⟩ := read_eq_ok_iff.1 hread
    refine .inl ⟨response, rfl, by rw [parse, hread], ?_⟩
    cases hevent <;> rfl

theorem parse_eq_iff {text : List Char} {response : Response} (h : response.id?.isSome = true) :
    parse text = response ↔ read text = .ok response := by
  constructor
  · rintro rfl
    rcases parse_cases text with ⟨response, hread, rfl, -⟩ | ⟨reason, -, hparse⟩
    · exact hread
    · rw [hparse] at h
      cases h
  · intro hread
    rw [parse, hread]

theorem parse_eq_success_iff {text : List Char} {id : RequestId} :
    parse text = .success id ↔ Lexes text (successTokens id) none := by
  rw [parse_eq_iff rfl, read_eq_ok_iff]
  constructor
  · rintro ⟨tokens, hevent, hlexes⟩
    cases hevent
    exact hlexes
  · intro hlexes
    exact ⟨_, .success id, hlexes⟩

theorem parse_eq_failure_iff {text : List Char} {id : RequestId} {message : String}
    {stack : List String} :
    parse text = .failure id message stack ↔ Lexes text (failureTokens id message stack) none := by
  rw [parse_eq_iff rfl, read_eq_ok_iff]
  constructor
  · rintro ⟨tokens, hevent, hlexes⟩
    cases hevent
    exact hlexes
  · intro hlexes
    exact ⟨_, .failure id message stack, hlexes⟩

/-- A text stands for a success or a failure exactly if it falls into the tokens of the event, and
every other text is kept as it is. Every text falls into tokens, and texts with the same ones, such
as texts that differ in the blanks between them, get the same answer or the same reason. -/
theorem events_are_read_by_grammar (text : List Char) :
    (∀ id, parse text = .success id ↔ Lexes text (successTokens id) none) ∧
    (∀ id message stack, parse text = .failure id message stack ↔
      Lexes text (failureTokens id message stack) none) ∧
    ((∀ id, ¬ Lexes text (successTokens id) none) →
      (∀ id message stack, ¬ Lexes text (failureTokens id message stack) none) →
      ∃ reason, parse text = .unrecognized (String.ofList text) reason) ∧
    (∃ tokens unfinished, Lexes text tokens unfinished) ∧
    ∀ tokens unfinished other, Lexes text tokens unfinished → Lexes other tokens unfinished →
      parse other = parse text ∨ ∃ reason, parse text = .unrecognized (String.ofList text) reason ∧
        parse other = .unrecognized (String.ofList other) reason := by
  refine ⟨fun id => parse_eq_success_iff, fun id message stack => parse_eq_failure_iff, ?_,
    exists_lexes text, ?_⟩
  · intro hsuccess hfailure
    rcases parse_cases text with ⟨response, hread, -, -⟩ | ⟨reason, -, hparse⟩
    · obtain ⟨tokens, hevent, hlexes⟩ := read_eq_ok_iff.1 hread
      cases hevent with
      | success id => exact absurd hlexes (hsuccess id)
      | failure id message stack => exact absurd hlexes (hfailure id message stack)
    · exact ⟨reason, hparse⟩
  · intro tokens unfinished other htext hother
    have hsame := htext.read_eq hother
    rcases parse_cases text with ⟨response, hread, hparse, -⟩ | ⟨reason, hread, hparse⟩
    · refine .inl ?_
      rw [hparse, parse, hsame, hread]
    · refine .inr ⟨reason, hparse, ?_⟩
      rw [parse, hsame, hread]

/-- An event that a string is opened behind, and one laid out in another way. -/
theorem events_are_read_by_grammar_behind_event :
    let text := "(success \"a\") \"".toList
    let other := "\n( success\"\\a\")\"b".toList
    Lexes text (successTokens "a") (some .string) ∧ Lexes other (successTokens "a") (some .string) ∧
      (∃ reason, parse text = .unrecognized (String.ofList text) reason) ∧
      (parse other = parse text ∨ ∃ reason, parse text = .unrecognized (String.ofList text) reason ∧
        parse other = .unrecognized (String.ofList other) reason) := by
  intro text other
  have htext : Lexes text (successTokens "a") (some .string) := lexes_iff.2 rfl
  have hother : Lexes other (successTokens "a") (some .string) := lexes_iff.2 rfl
  have hopen (tokens : List Token) : ¬ Lexes text tokens none := by
    intro h
    have hends := congrArg Prod.snd (h.tokenize_eq.symm.trans htext.tokenize_eq)
    cases hends
  obtain ⟨-, -, hkept, -, hsame⟩ := events_are_read_by_grammar text
  exact ⟨htext, hother, hkept (fun id => hopen _) (fun id message stack => hopen _),
    hsame _ _ other htext hother⟩

end RemoteEval.Response
