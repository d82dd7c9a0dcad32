import RemoteEval.Proofs.Client.Delivery
import RemoteEval.Proofs.Literal.Sealed

/-!
What the interpreter is told of paths. The code that loads a file or activates an environment holds
one literal, which stands for the text of the path, so codes are the same for paths with the same
text only. Bytes are not all texts: those of a path that stand for no character are replaced in its
text, and the interpreter is then pointed to the path that has this text.
-/
namespace RemoteEval

open Text

/-- One literal stands in a code: a reader that comes to the first quote finds where the literal
ends, and there is no quote behind it. -/
def Literal.OneIn (code literal : String) : Prop :=
  ∃ before inside after, code.toList = before ++ '"' :: (inside ++ '"' :: after) ∧
    '"' ∉ before ∧ '"' ∉ after ∧ literal.toList = '"' :: (inside ++ ['"']) ∧
    readLiteral? ('"' :: (inside ++ '"' :: after)) = some (inside, after)

def Names (code text : String) : Prop :=
  ∃ literal, Literal.OneIn code literal ∧ Literal.unquote literal = some text

def IsText (bytes : List UInt8) : Prop := ∃ text, Utf8.decode bytes = .ok text

def Body.path? : Body → Option String
  | .file path => some path
  | .project path => some path
  | _ => none

namespace Literal

theorem OneIn.unique {code first second : String} (hfirst : OneIn code first)
    (hsecond : OneIn code second) : first = second := by
  obtain ⟨before, inside, after, hcode, hbefore, -, hliteral, hread⟩ := hfirst
  obtain ⟨front, inner, rest, hsame, hfront, -, hother, hreadOther⟩ := hsecond
  have hbreak := breakAt?_word hbefore (breakAt?_append ['"'] (inside ++ '"' :: after))
  have hbreakOther := breakAt?_word hfront (breakAt?_append ['"'] (inner ++ '"' :: rest))
  rw [List.singleton_append, ← hcode] at hbreak
  rw [List.singleton_append, ← hsame, hbreak] at hbreakOther
  obtain ⟨-, hbehind⟩ := Prod.mk.inj (Option.some.inj hbreakOther)
  rw [hbehind, hreadOther] at hread
  obtain ⟨rfl, -⟩ := Prod.mk.inj (Option.some.inj hread)
  exact String.toList_inj.1 (hliteral.trans hother.symm)

/-- A literal that is put between texts without quotes is the one literal of the whole. -/
theorem oneIn_quote {front back : String} (hfront : '"' ∉ front.toList) (hback : '"' ∉ back.toList)
    (text : String) : OneIn (front ++ quote text ++ back) (quote text) := by
  have hsealed := sealed_of_unescape (unescape_escape text.toList)
  refine ⟨front.toList, escape text.toList, back.toList, ?_, hfront, hback, toList_quote text,
    hsealed.read back.toList⟩
  rw [String.toList_append, String.toList_append, toList_quote, List.append_assoc, List.cons_append,
    List.append_assoc, List.singleton_append]

end Literal

open Literal

theorem Names.unique {code first second : String} (hfirst : Names code first)
    (hsecond : Names code second) : first = second := by
  obtain ⟨literal, hone, hread⟩ := hfirst
  obtain ⟨other, hother, hreadOther⟩ := hsecond
  rw [hone.unique hother, hreadOther] at hread
  exact (Option.some.inj hread).symm

theorem names_loadInstruction (path : String) : Names (loadInstruction path) path :=
  ⟨quote path, oneIn_quote (by decide) (by decide) path, unquote_quote path⟩

theorem names_activation (path : String) : Names (activation path) path :=
  ⟨quote path, oneIn_quote (by decide) (by decide) path, unquote_quote path⟩

theorem toList_pathText (bytes : List UInt8) : (pathText bytes).toList = Utf8.lossy bytes :=
  String.toList_ofList

theorem pathText_encode (text : String) : pathText (Utf8.encode text.toList) = text := by
  rw [pathText, Utf8.lossy_encode, String.ofList_toList]

theorem pathText_of_too_high {byte : UInt8} (h : 0xf4 < byte) (front back : List Char) :
    pathText (Utf8.encode front ++ byte :: Utf8.encode back) =
      String.ofList (front ++ Utf8.replacement :: back) := by
  rw [pathText, Utf8.lossy_of_too_high h]

theorem isText_encode (text : List Char) : IsText (Utf8.encode text) :=
  ⟨text, Utf8.decode_encode text⟩

/-- A path has the bytes of its text exactly if it is one. -/
theorem encode_pathText_eq_iff (bytes : List UInt8) :
    Utf8.encode (pathText bytes).toList = bytes ↔ IsText bytes := by
  rw [toList_pathText, Utf8.encode_lossy_eq_iff, IsText]

theorem eq_of_pathText {bytes other : List UInt8} (hbytes : IsText bytes) (hother : IsText other)
    (h : pathText bytes = pathText other) : bytes = other := by
  rw [← (encode_pathText_eq_iff bytes).2 hbytes, h, (encode_pathText_eq_iff other).2 hother]

theorem Client.exists_named_code (c : Client) {body : Body} {path : String}
    (h : body.path? = some path) : ∃ code, c.codeOrText body = .inl code ∧ Names code path := by
  cases body with
  | file asked =>
    cases h
    exact ⟨_, rfl, names_loadInstruction path⟩
  | project asked =>
    cases h
    exact ⟨_, rfl, names_activation path⟩
  | text content => cases h
  | staged content => cases h
  | auto content => cases h
  | selection content start stop => cases h

/-- The code of a request names the file or directory that is asked for, or else the scratch file
that is made for the request. -/
theorem Client.names_path {c : Client} {a : Attempt} {request : Request} {staged : Option String}
    {scratch : Scratch} (h : c.prepare a = .ok (request, staged, scratch)) {path : String}
    (hpath : a.body.path?.or staged = some path) : Names request.code path := by
  obtain ⟨-, hroute⟩ := checked_route (prepare_ok h)
  cases hroute with
  | inline hcode =>
    rw [Option.or_none] at hpath
    obtain ⟨code, hsame, hnames⟩ := c.exists_named_code hpath
    cases hcode.symm.trans hsame
    exact hnames
  | staged content hcode hload hname =>
    have hnone : a.body.path? = none := by
      cases hasked : a.body.path? with
      | none => rfl
      | some asked =>
        obtain ⟨code, hsame, -⟩ := c.exists_named_code hasked
        cases hcode.symm.trans hsame
    rw [hnone, Option.none_or] at hpath
    rw [hload, Option.some.inj hpath]
    exact names_loadInstruction path

theorem Client.names_path_of_submit {c : Client} {a : Attempt} {request : Request}
    {inflight : Inflight} (h : (c.submit a).1.queue = c.queue ++ [.send request inflight])
    {path : String} (hpath : a.body.path?.or inflight.staged = some path) :
    Names request.code path := by
  unfold submit at h
  split at h
  · simp at h
  · next asked staged scratch hprepare =>
    split at h
    · simp at h
    · obtain ⟨rfl, rfl⟩ := Command.send.inj (List.singleton_inj.1 (List.append_cancel_left h))
      exact names_path hprepare hpath

section Instructions

variable {instruction : String → String}

theorem instruction_eq_iff (hnames : ∀ path, Names (instruction path) path) (path other : String) :
    instruction path = instruction other ↔ path = other :=
  ⟨fun h => (hnames path).unique (h ▸ hnames other), congrArg instruction⟩

/-- The bytes of a path come back from the instruction exactly if they are those of a text. -/
theorem isText_iff_named (hnames : ∀ path, Names (instruction path) path) (bytes : List UInt8) :
    IsText bytes ↔
      ∃ text, Names (instruction (pathText bytes)) text ∧ Utf8.encode text.toList = bytes := by
  constructor
  · intro h
    exact ⟨pathText bytes, hnames _, (encode_pathText_eq_iff bytes).2 h⟩
  · rintro ⟨text, -, rfl⟩
    exact isText_encode text.toList

/-- A path that is not a text is taken for another, which is. -/
theorem exists_other_path (instruction : String → String) {bytes : List UInt8}
    (h : ¬ IsText bytes) : ∃ named, named ≠ bytes ∧ IsText named ∧
      instruction (pathText named) = instruction (pathText bytes) :=
  ⟨Utf8.encode (pathText bytes).toList, fun heq => h ((encode_pathText_eq_iff bytes).1 heq),
    isText_encode _, congrArg instruction (pathText_encode _)⟩

end Instructions

/-- The code that loads a file or activates an environment has one literal, which stands for the
text of the path. It has the bytes of the path exactly if these are those of a text: codes tell
such paths apart, but any other path has the same code as one of them. Each request that a sender
has queued names the path that is asked for, or the one of its scratch file. -/
theorem paths_are_named_by_their_text (bytes other : List UInt8) :
    (∀ instruction ∈ [loadInstruction, activation],
      Names (instruction (pathText bytes)) (pathText bytes) ∧
      (IsText bytes ↔
        ∃ text, Names (instruction (pathText bytes)) text ∧ Utf8.encode text.toList = bytes) ∧
      (instruction (pathText bytes) = instruction (pathText other) ↔
        pathText bytes = pathText other) ∧
      (IsText bytes → IsText other →
        instruction (pathText bytes) = instruction (pathText other) → bytes = other) ∧
      (¬ IsText bytes → ∃ named, named ≠ bytes ∧ IsText named ∧
        instruction (pathText named) = instruction (pathText bytes))) ∧
    ∀ (c : Client) (a : Attempt) (request : Request) (inflight : Inflight) (path : String),
      (c.submit a).1.queue = c.queue ++ [.send request inflight] →
      a.body.path?.or inflight.staged = some path →
      ∀ text, Names request.code text ↔ text = path := by
  constructor
  · intro instruction hmem
    have hnames : ∀ path, Names (instruction path) path := by
      rcases List.mem_pair.1 hmem with rfl | rfl
      · exact names_loadInstruction
      · exact names_activation
    have hsame := instruction_eq_iff hnames (pathText bytes) (pathText other)
    exact ⟨hnames _, isText_iff_named hnames bytes, hsame,
      fun hbytes hother h => eq_of_pathText hbytes hother (hsame.1 h), exists_other_path instruction⟩
  · intro c a request inflight path hqueue hpath text
    have hnamed := Client.names_path_of_submit hqueue hpath
    exact ⟨fun h => h.unique hnamed, fun h => h ▸ hnamed⟩

/-- A client that is asked to load a file whose path needs escapes, and another whose path has a
byte that stands for no character. -/
theorem paths_are_named_by_their_text_of_files :
    let bytes := Utf8.encode "/tmp/é \"$.jl".toList
    let other := Utf8.encode "/tmp/".toList ++ 255 :: Utf8.encode ".jl".toList
    let c := Client.new { peer := "repl" } {} {}
    let asked : Attempt := ⟨"1", "", "main", .default, .file (pathText bytes), {}⟩
    (IsText bytes ∧ Names (loadInstruction (pathText bytes)) (pathText bytes)) ∧
      (¬ IsText other ∧ ∃ named, named ≠ other ∧ IsText named ∧
        activation (pathText named) = activation (pathText other)) ∧
      ∃ request inflight, (c.submit asked).1.queue = c.queue ++ [.send request inflight] ∧
        ∀ text, Names request.code text ↔ text = "/tmp/é \"$.jl" := by
  intro bytes other c asked
  have hother : ¬ IsText other := by
    rw [← encode_pathText_eq_iff]
    rw [pathText_of_too_high (by decide)]
    decide
  have hpath : pathText bytes = "/tmp/é \"$.jl" := pathText_encode _
  refine ⟨⟨isText_encode _, ?_⟩, ⟨hother, ?_⟩, _, _, rfl, ?_⟩
  · exact ((paths_are_named_by_their_text bytes other).1 loadInstruction (by simp)).1
  · exact ((paths_are_named_by_their_text other bytes).1 activation (by simp)).2.2.2.2 hother
  · rw [← hpath]
    exact (paths_are_named_by_their_text bytes other).2 c asked _ _ _ rfl rfl

/-- A path with a byte that stands for no character: no text that the code stands for has the bytes
of the path, and the code is the one for the path with the replacement character. -/
theorem replaced_byte_names_other_path :
    let path := Utf8.encode "/tmp/".toList ++ 255 :: Utf8.encode ".jl".toList
    let other := Utf8.encode "/tmp/\ufffd.jl".toList
    0 ∉ path ∧ loadInstruction (pathText path) = "include(\"/tmp/\ufffd.jl\")" ∧
      (¬ ∃ text, Names (loadInstruction (pathText path)) text ∧ Utf8.encode text.toList = path) ∧
      path ≠ other ∧ loadInstruction (pathText path) = loadInstruction (pathText other) ∧
      activation (pathText path) = activation (pathText other) := by
  intro path other
  have hpath : pathText path = "/tmp/\ufffd.jl" := pathText_of_too_high (by decide) _ _
  have hother : pathText other = "/tmp/\ufffd.jl" := pathText_encode _
  have hne : path ≠ other := by decide
  refine ⟨by decide, by rw [hpath]; decide, ?_, hne, by rw [hpath, hother], by rw [hpath, hother]⟩
  rintro ⟨text, hnames, hbytes⟩
  have htext : text = pathText path := hnames.unique (names_loadInstruction _)
  rw [htext, hpath] at hbytes
  exact hne hbytes.symm

end RemoteEval
