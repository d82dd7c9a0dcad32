import RemoteEval.Proofs.Response.Nesting
import RemoteEval.Proofs.Response.Grammar

/-!
Reading data by descent. A reader that calls itself for each item of a list gives what the reader
with open lists gives, so how deep its calls go is how many lists are open. Every call that gives a
datum takes a token, so it ends on all tokens; none goes deeper than the bound; and a text is
refused for its nesting exactly if a list opens at the bound before the first datum is read.
-/
namespace RemoteEval.Response

open Text

/-- The calls that are made one after another, each with how many lists are open around it and
with the calls that are made within it. -/
inductive Calls where
  | none
  | call (depth : Nat) (inner next : Calls)

def Calls.depths : Calls → List Nat
  | .none => []
  | .call depth inner next => depth :: (inner.depths ++ next.depths)

def Calls.height : Calls → Nat
  | .none => 0
  | .call _ inner next => max (inner.height + 1) next.height

/-- What is to be read: one datum, or the items of an open list behind those read, last first. -/
inductive Task where
  | datum
  | items (done : List Datum)

def GoesOn (unfinished : Option Unfinished) : List Token → Prop
  | [] => unfinished ≠ none
  | token :: _ => token ≠ .parenRight

/-- What a reader by descent answers inside of so many open lists, with the tokens that it leaves,
and the calls that it makes. It looks at the next token, and calls itself for each item with one
more list open. -/
inductive Reads (unfinished : Option Unfinished) :
    Task → Nat → List Token → Except Reason (Datum × List Token) → Calls → Prop where
  | ended {depth : Nat} :
    Reads unfinished .datum depth [] (.error (endReason unfinished .emptyEvent)) .none
  | tooDeep {depth : Nat} {rest : List Token} (hdeep : maxDepth ≤ depth) :
    Reads unfinished .datum depth (.parenLeft :: rest) (.error .tooDeep) .none
  | opened {depth : Nat} {rest : List Token} {answer : Except Reason (Datum × List Token)}
    {calls : Calls} (hroom : depth < maxDepth)
    (hitems : Reads unfinished (.items []) depth rest answer calls) :
    Reads unfinished .datum depth (.parenLeft :: rest) answer calls
  | unexpected {depth : Nat} {rest : List Token} :
    Reads unfinished .datum depth (.parenRight :: rest) (.error .unexpectedParen) .none
  | string {depth : Nat} {text : String} {rest : List Token} :
    Reads unfinished .datum depth (.string text :: rest) (.ok (.string text, rest)) .none
  | symbol {depth : Nat} {name : String} {rest : List Token} :
    Reads unfinished .datum depth (.symbol name :: rest) (.ok (.symbol name, rest)) .none
  | unterminated {done : List Datum} {depth : Nat} (hend : unfinished = none) :
    Reads unfinished (.items done) depth [] (.error .unterminatedList) .none
  | closed {done : List Datum} {depth : Nat} {rest : List Token} :
    Reads unfinished (.items done) depth (.parenRight :: rest)
      (.ok (.list done.reverse, rest)) .none
  | refused {done : List Datum} {depth : Nat} {tokens : List Token} {reason : Reason}
    {inner : Calls} (hgoes : GoesOn unfinished tokens)
    (hitem : Reads unfinished .datum (depth + 1) tokens (.error reason) inner) :
    Reads unfinished (.items done) depth tokens (.error reason) (.call (depth + 1) inner .none)
  | item {done : List Datum} {depth : Nat} {tokens rest : List Token} {item : Datum}
    {answer : Except Reason (Datum × List Token)} {inner next : Calls}
    (hgoes : GoesOn unfinished tokens)
    (hitem : Reads unfinished .datum (depth + 1) tokens (.ok (item, rest)) inner)
    (hrest : Reads unfinished (.items (item :: done)) depth rest answer next) :
    Reads unfinished (.items done) depth tokens answer (.call (depth + 1) inner next)

def Task.Within (depth : Nat) : Task → Prop
  | .datum => depth ≤ maxDepth
  | .items _ => depth < maxDepth

def Task.lists (outer : OpenLists) : Task → OpenLists
  | .datum => outer
  | .items done => done :: outer

def Task.Ahead (unfinished : Option Unfinished) (tokens : List Token) (outer : OpenLists) :
    Task → Prop
  | .datum => outer = [] ∨ GoesOn unfinished tokens
  | .items _ => True

def carriedOn (unfinished : Option Unfinished) (outer : OpenLists) :
    Except Reason (Datum × List Token) → Except Reason (Datum × List Token)
  | .error reason => .error reason
  | .ok (datum, rest) =>
    match place datum outer with
    | .inl datum => .ok (datum, rest)
    | .inr lists => readDatum unfinished lists rest

/-- Behind some tokens, read inside of `depth` open lists, `behind` lists are open, and on the way
there the last list is not closed. -/
structure Opens (depth behind : Nat) (tokens : List Token) : Prop where
  total : depth + tokens.count .parenLeft = tokens.count .parenRight + behind
  stays : ∀ start, start <+: tokens → start ≠ [] →
    start.count .parenRight < depth + start.count .parenLeft

def Takes (tokens : List Token) : Except Reason (Datum × List Token) → Prop
  | .error _ => True
  | .ok (_, rest) => ∃ first used, tokens = first :: (used ++ rest)

def Task.spare : Task → Nat
  | .datum => 0
  | .items _ => 1

/-- Every call, that for the task included, has a token to itself: one of those that a datum has
taken, or one of those that were ahead. -/
def Task.Counts (task : Task) (tokens : List Token) (calls : Calls) :
    Except Reason (Datum × List Token) → Prop
  | .error _ => calls.depths.length ≤ tokens.length + task.spare
  | .ok (_, rest) => calls.depths.length + rest.length + 1 ≤ tokens.length

/-- A list opens inside of as many open lists as may be, before the datum is read that the tokens
start with or go on with. -/
def MeetsBound (depth : Nat) (tokens : List Token) : Prop :=
  ∃ before after, tokens = before ++ .parenLeft :: after ∧ Opens depth maxDepth before

def Token.openBehind (depth : Nat) : Token → Nat
  | .parenLeft => depth + 1
  | .parenRight => depth - 1
  | .string _ => depth
  | .symbol _ => depth

section Descent

variable {unfinished : Option Unfinished} {task : Task} {depth : Nat} {tokens : List Token}
  {answer : Except Reason (Datum × List Token)} {calls : Calls}

/-- A datum has been taken from the front of the tokens. -/
theorem Reads.takes (h : Reads unfinished task depth tokens answer calls) : Takes tokens answer := by
  induction h with
  | ended => trivial
  | tooDeep hdeep => trivial
  | @opened depth rest answer calls hroom hitems ih =>
    cases answer with
    | error reason => trivial
    | ok read =>
      obtain ⟨first, used, hrest⟩ := ih
      exact ⟨.parenLeft, first :: used, by rw [hrest, List.cons_append]⟩
  | unexpected => trivial
  | string => exact ⟨_, [], rfl⟩
  | symbol => exact ⟨_, [], rfl⟩
  | unterminated hend => trivial
  | closed => exact ⟨_, [], rfl⟩
  | refused hgoes hitem ih => trivial
  | @item done depth tokens rest item answer inner next hgoes hitem hrest ihitem ihrest =>
    cases answer with
    | error reason => trivial
    | ok read =>
      obtain ⟨first, used, hfront⟩ := ihitem
      obtain ⟨second, more, hback⟩ := ihrest
      refine ⟨first, used ++ second :: more, ?_⟩
      rw [hfront, hback, List.append_assoc, List.cons_append]

/-- Reading ends: where it goes on after an item, fewer tokens are left. -/
theorem exists_reads (unfinished : Option Unfinished) (task : Task) (depth : Nat)
    (tokens : List Token) : ∃ answer calls, Reads unfinished task depth tokens answer calls := by
  induction hlength : tokens.length using Nat.strong_induction_on generalizing task depth tokens with
  | h length ih =>
    subst hlength
    have hdatum (depth : Nat) :
        ∃ answer calls, Reads unfinished .datum depth tokens answer calls := by
      match tokens with
      | [] => exact ⟨_, _, .ended⟩
      | .parenLeft :: rest =>
        by_cases hroom : depth < maxDepth
        · obtain ⟨answer, calls, hitems⟩ := ih _ (Nat.lt_succ_self _) (.items []) depth rest rfl
          exact ⟨answer, calls, .opened hroom hitems⟩
        · exact ⟨_, _, .tooDeep (Nat.le_of_not_lt hroom)⟩
      | .parenRight :: rest => exact ⟨_, _, .unexpected⟩
      | .string text :: rest => exact ⟨_, _, .string⟩
      | .symbol name :: rest => exact ⟨_, _, .symbol⟩
    cases task with
    | datum => exact hdatum depth
    | items done =>
      by_cases hgoes : GoesOn unfinished tokens
      · obtain ⟨answer, inner, hitem⟩ := hdatum (depth + 1)
        cases answer with
        | error reason => exact ⟨_, _, .refused hgoes hitem⟩
        | ok read =>
          obtain ⟨item, rest⟩ := read
          obtain ⟨first, used, htokens⟩ := hitem.takes
          have hshorter : rest.length < tokens.length := by
            rw [htokens, List.length_cons, List.length_append]
            omega
          obtain ⟨answer, next, hrest⟩ := ih _ hshorter (.items (item :: done)) depth rest rfl
          exact ⟨answer, _, .item hgoes hitem hrest⟩
      · cases tokens with
        | nil => exact ⟨_, _, .unterminated (not_not.1 hgoes)⟩
        | cons token rest =>
          obtain rfl : token = .parenRight := not_not.1 hgoes
          exact ⟨_, _, .closed⟩

/-- No call goes deeper than the bound, counted by the lists that are open around it as well as by
the calls under way. -/
theorem Reads.within (h : Reads unfinished task depth tokens answer calls)
    (hwithin : task.Within depth) :
    calls.height + depth ≤ maxDepth ∧ ∀ d ∈ calls.depths, d ≤ maxDepth := by
  have hnone {depth : Nat} (hdepth : depth ≤ maxDepth) :
      Calls.none.height + depth ≤ maxDepth ∧ ∀ d ∈ Calls.none.depths, d ≤ maxDepth := by
    refine ⟨by simpa only [Calls.height, Nat.zero_add] using hdepth, ?_⟩
    intro d hd
    cases hd
  have hcall {depth : Nat} {inner next : Calls} (hdepth : depth + 1 ≤ maxDepth)
      (hinner : inner.height + (depth + 1) ≤ maxDepth ∧ ∀ d ∈ inner.depths, d ≤ maxDepth)
      (hnext : next.height + depth ≤ maxDepth ∧ ∀ d ∈ next.depths, d ≤ maxDepth) :
      (Calls.call (depth + 1) inner next).height + depth ≤ maxDepth ∧
        ∀ d ∈ (Calls.call (depth + 1) inner next).depths, d ≤ maxDepth := by
    constructor
    · simp only [Calls.height]
      omega
    · intro d hd
      simp only [Calls.depths, List.mem_cons, List.mem_append] at hd
      rcases hd with rfl | hd | hd
      · exact hdepth
      · exact hinner.2 d hd
      · exact hnext.2 d hd
  induction h with
  | ended => exact hnone hwithin
  | tooDeep hdeep => exact hnone hwithin
  | opened hroom hitems ih => exact ih hroom
  | unexpected => exact hnone hwithin
  | string => exact hnone hwithin
  | symbol => exact hnone hwithin
  | unterminated hend => exact hnone (Nat.le_of_lt hwithin)
  | closed => exact hnone (Nat.le_of_lt hwithin)
  | refused hgoes hitem ih => exact hcall hwithin (ih hwithin) (hnone (Nat.le_of_lt hwithin))
  | item hgoes hitem hrest ihitem ihrest =>
    exact hcall hwithin (ihitem hwithin) (ihrest hwithin)

theorem Reads.counts (h : Reads unfinished task depth tokens answer calls) :
    task.Counts tokens calls answer := by
  induction h with
  | ended => exact Nat.zero_le _
  | tooDeep hdeep => exact Nat.zero_le _
  | @opened depth rest answer calls hroom hitems ih =>
    cases answer with
    | error reason => exact ih
    | ok read => exact Nat.le_succ_of_le ih
  | unexpected => exact Nat.zero_le _
  | string => simp [Task.Counts, Calls.depths]
  | symbol => simp [Task.Counts, Calls.depths]
  | unterminated hend => exact Nat.zero_le _
  | closed => simp [Task.Counts, Calls.depths]
  | refused hgoes hitem ih =>
    simp only [Task.Counts, Task.spare] at ih ⊢
    simp only [Calls.depths, List.length_cons, List.append_nil]
    omega
  | @item done depth tokens rest item answer inner next hgoes hitem hrest ihitem ihrest =>
    have hlength : (Calls.call (depth + 1) inner next).depths.length =
        inner.depths.length + next.depths.length + 1 := by
      rw [Calls.depths, List.length_cons, List.length_append]
    cases answer with
    | error reason =>
      simp only [Task.Counts, Task.spare] at ihitem ihrest ⊢
      omega
    | ok read =>
      simp only [Task.Counts] at ihitem ihrest ⊢
      omega

theorem Task.Counts.le (h : Task.datum.Counts tokens calls answer) :
    calls.depths.length ≤ tokens.length := by
  cases answer with
  | error reason => exact h
  | ok read =>
    simp only [Task.Counts] at h
    omega

/-- What is ahead decides how a list goes on, and an item what comes behind it. -/
theorem Reads.unique (h : Reads unfinished task depth tokens answer calls) :
    ∀ other more, Reads unfinished task depth tokens other more → other = answer ∧ more = calls := by
  induction h with
  | ended =>
    intro other more h
    cases h
    exact ⟨rfl, rfl⟩
  | tooDeep hdeep =>
    intro other more h
    cases h with
    | tooDeep => exact ⟨rfl, rfl⟩
    | opened hroom => omega
  | opened hroom hitems ih =>
    intro other more h
    cases h with
    | tooDeep hdeep => omega
    | opened _ hother => exact ih other more hother
  | unexpected =>
    intro other more h
    cases h
    exact ⟨rfl, rfl⟩
  | string =>
    intro other more h
    cases h
    exact ⟨rfl, rfl⟩
  | symbol =>
    intro other more h
    cases h
    exact ⟨rfl, rfl⟩
  | unterminated hend =>
    intro other more h
    cases h with
    | unterminated => exact ⟨rfl, rfl⟩
    | refused hgoes => exact absurd hend hgoes
    | item hgoes => exact absurd hend hgoes
  | closed =>
    intro other more h
    cases h with
    | closed => exact ⟨rfl, rfl⟩
    | refused hgoes => exact absurd rfl hgoes
    | item hgoes => exact absurd rfl hgoes
  | refused hgoes hitem ih =>
    intro other more h
    cases h with
    | unterminated hend => exact absurd hend hgoes
    | closed => exact absurd rfl hgoes
    | refused _ hother =>
      obtain ⟨hanswer, rfl⟩ := ih _ _ hother
      exact ⟨hanswer, rfl⟩
    | item _ hother => cases (ih _ _ hother).1
  | item hgoes hitem hrest ihitem ihrest =>
    intro other more h
    cases h with
    | unterminated hend => exact absurd hend hgoes
    | closed => exact absurd rfl hgoes
    | refused _ hother => cases (ihitem _ _ hother).1
    | item _ hother hmore =>
      obtain ⟨hanswer, rfl⟩ := ihitem _ _ hother
      cases hanswer
      obtain ⟨rfl, rfl⟩ := ihrest _ _ hmore
      exact ⟨rfl, rfl⟩

/-- Descent inside of open lists gives what is read with these lists open. -/
theorem Reads.readDatum_eq (h : Reads unfinished task depth tokens answer calls) :
    ∀ outer : OpenLists, outer.length = depth → task.Ahead unfinished tokens outer →
      readDatum unfinished (task.lists outer) tokens = carriedOn unfinished outer answer := by
  induction h with
  | ended =>
    intro outer hlength hahead
    cases outer with
    | nil => rfl
    | cons items outer =>
      rcases hahead with hnil | hgoes
      · cases hnil
      · cases unfinished with
        | none => exact absurd rfl hgoes
        | some what => rfl
  | tooDeep hdeep =>
    intro outer hlength hahead
    rw [Task.lists, readDatum, if_pos (hlength ▸ hdeep)]
    rfl
  | opened hroom hitems ih =>
    intro outer hlength hahead
    rw [Task.lists, readDatum, if_neg (by omega)]
    exact ih outer hlength trivial
  | unexpected =>
    intro outer hlength hahead
    rcases hahead with rfl | hgoes
    · rfl
    · exact absurd rfl hgoes
  | string =>
    intro outer hlength hahead
    rw [Task.lists, readDatum]
    rfl
  | symbol =>
    intro outer hlength hahead
    rw [Task.lists, readDatum]
    rfl
  | unterminated hend =>
    intro outer hlength hahead
    rw [hend]
    rfl
  | closed =>
    intro outer hlength hahead
    rw [Task.lists, readDatum]
    rfl
  | @refused done depth tokens reason inner hgoes hitem ih =>
    intro outer hlength hahead
    exact ih (done :: outer) (congrArg Nat.succ hlength) (.inr hgoes)
  | @item done depth tokens rest item answer inner next hgoes hitem hrest ihitem ihrest =>
    intro outer hlength hahead
    exact (ihitem (done :: outer) (congrArg Nat.succ hlength) (.inr hgoes)).trans
      (ihrest outer hlength trivial)

end Descent

theorem opens_nil_iff (depth behind : Nat) : Opens depth behind [] ↔ depth = behind := by
  constructor
  · intro h
    simpa using h.total
  · rintro rfl
    exact ⟨by simp, fun start hstart hne => absurd (List.prefix_nil.1 hstart) hne⟩

/-- Behind its first token, tokens are read inside of the lists that it leaves open. -/
theorem opens_cons_iff (depth behind : Nat) (token : Token) (rest : List Token) :
    Opens depth behind (token :: rest) ↔
      0 < token.openBehind depth ∧ Opens (token.openBehind depth) behind rest := by
  have hcount (tokens : List Token) : 0 < token.openBehind depth →
      (depth + (token :: tokens).count .parenLeft + tokens.count .parenRight =
        (token :: tokens).count .parenRight + (token.openBehind depth + tokens.count .parenLeft)) := by
    cases token <;> simp [Token.openBehind] <;> omega
  have hfirst : [token].count .parenRight < depth + [token].count .parenLeft ↔
      0 < token.openBehind depth := by
    rw [List.count_singleton, List.count_singleton]
    cases token with
    | parenLeft => exact Iff.rfl
    | parenRight =>
      change 1 < depth + 0 ↔ 0 < depth - 1
      omega
    | string text => exact Iff.rfl
    | symbol name => exact Iff.rfl
  constructor
  · intro h
    have hopen := hfirst.1 (h.stays [token] (by simp) (by simp))
    refine ⟨hopen, ?_, ?_⟩
    · have htotal := h.total
      have hall := hcount rest hopen
      omega
    · intro start hstart hne
      have hstays := h.stays (token :: start) (List.cons_prefix_cons.2 ⟨rfl, hstart⟩) (by simp)
      have hall := hcount start hopen
      omega
  · rintro ⟨hopen, h⟩
    refine ⟨?_, ?_⟩
    · have htotal := h.total
      have hall := hcount rest hopen
      omega
    · intro start hstart hne
      rcases List.prefix_cons_iff.1 hstart with rfl | ⟨more, rfl, hmore⟩
      · exact absurd rfl hne
      · by_cases hnil : more = []
        · rw [hnil]
          exact hfirst.2 hopen
        · have hstays := h.stays more hmore hnil
          have hall := hcount more hopen
          omega

theorem not_meetsBound_nil (depth : Nat) : ¬ MeetsBound depth [] := by
  rintro ⟨before, after, htokens, -⟩
  simp at htokens

theorem meetsBound_cons_iff (depth : Nat) (token : Token) (rest : List Token) :
    MeetsBound depth (token :: rest) ↔ token = .parenLeft ∧ depth = maxDepth ∨
      0 < token.openBehind depth ∧ MeetsBound (token.openBehind depth) rest := by
  constructor
  · rintro ⟨before, after, htokens, hopens⟩
    cases before with
    | nil =>
      obtain ⟨rfl, -⟩ := List.cons.inj htokens
      exact .inl ⟨rfl, (opens_nil_iff _ _).1 hopens⟩
    | cons first before =>
      obtain ⟨rfl, rfl⟩ := List.cons.inj htokens
      obtain ⟨hopen, hopens⟩ := (opens_cons_iff _ _ _ _).1 hopens
      exact .inr ⟨hopen, before, after, rfl, hopens⟩
  · rintro (⟨rfl, rfl⟩ | ⟨hopen, before, after, rfl, hopens⟩)
    · exact ⟨[], rest, rfl, (opens_nil_iff _ _).2 rfl⟩
    · exact ⟨token :: before, after, rfl, (opens_cons_iff _ _ _ _).2 ⟨hopen, hopens⟩⟩

/-- Nothing is met behind a token that leaves no list open: it ends the datum. -/
theorem not_meetsBound_of_ended {depth : Nat} {token : Token} (h : token.openBehind depth = 0)
    (rest : List Token) : ¬ MeetsBound depth (token :: rest) := by
  rw [meetsBound_cons_iff]
  rintro (⟨rfl, -⟩ | ⟨hopen, -⟩)
  · cases h
  · omega

/-- What is met behind a token that does not meet the bound itself and leaves lists open. -/
theorem meetsBound_iff_of_open (depth : Nat) (token : Token)
    (hfree : token = .parenLeft → depth ≠ maxDepth) (hopen : 0 < token.openBehind depth)
    (rest : List Token) :
    MeetsBound depth (token :: rest) ↔ MeetsBound (token.openBehind depth) rest := by
  rw [meetsBound_cons_iff, or_iff_right (not_and.2 hfree), and_iff_right hopen]

theorem length_of_place {datum : Datum} {lists next : OpenLists}
    (h : place datum lists = .inr next) : next.length = lists.length ∧ 0 < lists.length := by
  cases lists with
  | nil => cases h
  | cons items outer =>
    cases h
    exact ⟨rfl, Nat.succ_pos _⟩

theorem endReason_ne_tooDeep (unfinished : Option Unfinished) {exhausted : Reason}
    (h : exhausted ≠ .tooDeep) : endReason unfinished exhausted ≠ .tooDeep := by
  cases unfinished with
  | none => exact h
  | some what => exact nofun

/-- The nesting is found too deep exactly if a list opens at the bound before a datum is read. -/
theorem readDatum_tooDeep_iff (unfinished : Option Unfinished) {lists : OpenLists}
    (tokens : List Token) (hdepth : lists.length ≤ maxDepth) :
    readDatum unfinished lists tokens = .error .tooDeep ↔ MeetsBound lists.length tokens := by
  fun_induction readDatum unfinished lists tokens with
  | case1 =>
    have hreason := endReason_ne_tooDeep unfinished (by simp : Reason.emptyEvent ≠ .tooDeep)
    exact iff_of_false (fun h => hreason (Except.error.inj h)) (not_meetsBound_nil _)
  | case2 =>
    have hreason := endReason_ne_tooDeep unfinished
      (by simp : Reason.unterminatedList ≠ .tooDeep)
    exact iff_of_false (fun h => hreason (Except.error.inj h)) (not_meetsBound_nil _)
  | case3 lists tokens hdeep =>
    have hbound : lists.length = maxDepth := Nat.le_antisymm hdepth hdeep
    exact iff_of_true rfl ((meetsBound_cons_iff _ _ _).2 (.inl ⟨rfl, hbound⟩))
  | case4 lists tokens hroom ih =>
    rw [ih (Nat.lt_of_not_le hroom)]
    have hfree : lists.length ≠ maxDepth := fun h => hroom (Nat.le_of_eq h.symm)
    exact (meetsBound_iff_of_open lists.length .parenLeft (fun _ => hfree) (Nat.succ_pos _) tokens).symm
  | case5 tokens => exact iff_of_false (by simp) (not_meetsBound_of_ended rfl tokens)
  | case6 items outer tokens found hplace =>
    obtain ⟨rfl, rfl⟩ := eq_of_place hplace
    exact iff_of_false (by simp) (not_meetsBound_of_ended rfl tokens)
  | case7 items outer tokens next hplace ih =>
    obtain ⟨hlength, hopen⟩ := length_of_place hplace
    rw [ih (hlength ▸ Nat.le_of_succ_le hdepth), hlength]
    exact (meetsBound_iff_of_open (outer.length + 1) .parenRight (by simp) hopen tokens).symm
  | case8 lists text tokens found hplace =>
    obtain ⟨rfl, rfl⟩ := eq_of_place hplace
    exact iff_of_false (by simp) (not_meetsBound_of_ended rfl tokens)
  | case9 lists text tokens next hplace ih =>
    obtain ⟨hlength, hopen⟩ := length_of_place hplace
    rw [ih (hlength ▸ hdepth), hlength]
    exact (meetsBound_iff_of_open lists.length (.string text) (by simp) hopen tokens).symm
  | case10 lists name tokens found hplace =>
    obtain ⟨rfl, rfl⟩ := eq_of_place hplace
    exact iff_of_false (by simp) (not_meetsBound_of_ended rfl tokens)
  | case11 lists name tokens next hplace ih =>
    obtain ⟨hlength, hopen⟩ := length_of_place hplace
    rw [ih (hlength ▸ hdepth), hlength]
    exact (meetsBound_iff_of_open lists.length (.symbol name) (by simp) hopen tokens).symm

theorem ofDatum_ne_tooDeep (datum : Datum) : ofDatum datum ≠ .error .tooDeep := by
  intro hdeep
  cases datum with
  | string text => cases hdeep
  | symbol name => cases hdeep
  | list items =>
    rcases ofDatum_list items with ⟨id, hevent⟩ | ⟨id, message, stack, hevent⟩ |
      ⟨reason, hshape, hevent⟩
    · cases hevent.symm.trans hdeep
    · cases hevent.symm.trans hdeep
    · cases hevent.symm.trans hdeep
      cases hshape

theorem read_tooDeep_iff (text : List Char) :
    read text = .error .tooDeep ↔ MeetsBound 0 (tokenize text).1 := by
  have hroom : ([] : OpenLists).length ≤ maxDepth := Nat.zero_le _
  refine Iff.trans ?_ (readDatum_tooDeep_iff (tokenize text).2 (tokenize text).1 hroom)
  unfold read
  generalize tokenize text = lexed
  obtain ⟨tokens, unfinished⟩ := lexed
  dsimp only
  cases hread : readDatum unfinished [] tokens with
  | error reason => simp
  | ok found =>
    obtain ⟨datum, rest⟩ := found
    refine iff_of_false ?_ nofun
    cases rest with
    | cons token rest => exact nofun
    | nil =>
      cases unfinished with
      | some what => exact nofun
      | none => exact ofDatum_ne_tooDeep datum

theorem ne_of_start {front : String} (back : String) {text : String}
    (h : front.toList.take 2 ≠ text.toList.take 2) (hfront : 2 ≤ front.toList.length) :
    front ++ back ≠ text := by
  intro heq
  apply h
  rw [← heq, String.toList_append, List.take_append_of_le_length hfront]

/-- No other reason is worded like the one for nesting. -/
theorem message_eq_tooDeep_iff (reason : Reason) :
    reason.message = "nesting too deep" ↔ reason = .tooDeep := by
  constructor
  · intro h
    cases reason with
    | tooDeep => rfl
    | tooLong bound =>
      have hmessage : (Reason.tooLong bound).message =
        "no line break within " ++ (toString bound ++ " bytes") := String.append_assoc
      exact absurd (hmessage ▸ h) (ne_of_start _ (by decide) (by decide))
    | badEncoding fault => exact absurd h (ne_of_start _ (by decide) (by decide))
    | trailing token => exact absurd h (ne_of_start _ (by decide) (by decide))
    | notList found => exact absurd h (ne_of_start _ (by decide) (by decide))
    | frameNotString found => exact absurd h (ne_of_start _ (by decide) (by decide))
    | shape tag => exact absurd h (ne_of_start _ (by decide) (by decide))
    | unfinished what =>
      cases what with
      | string => exact absurd h (by decide)
      | escape => exact absurd h (by decide)
    | _ => exact absurd h (by decide)
  · rintro rfl
    rfl

theorem parse_tooDeep_iff (text : List Char) :
    (∃ raw reason, parse text = .unrecognized raw reason ∧ reason.message = "nesting too deep") ↔
      MeetsBound 0 (tokenize text).1 := by
  rw [← read_tooDeep_iff]
  constructor
  · rintro ⟨raw, reason, hparse, hmessage⟩
    obtain rfl := (message_eq_tooDeep_iff reason).1 hmessage
    rcases parse_cases text with ⟨response, -, rfl, hid⟩ | ⟨reason, hread, hkept⟩
    · rw [hparse] at hid
      cases hid
    · cases hkept.symm.trans hparse
      exact hread
  · intro hread
    exact ⟨_, _, by rw [parse, hread], rfl⟩

/-- Every token takes a character. -/
theorem Lexes.length_le {text : List Char} {tokens : List Token} {unfinished : Option Unfinished}
    (h : Lexes text tokens unfinished) : tokens.length ≤ text.length := by
  induction h with
  | nil => exact Nat.le_refl _
  | blank hblank hrest ih => exact Nat.le_succ_of_le ih
  | parenLeft hrest ih => exact Nat.succ_le_succ ih
  | parenRight hrest ih => exact Nat.succ_le_succ ih
  | string hinside hrest ih =>
    simp only [List.length_cons, List.length_append]
    omega
  | symbol hne hname hend hrest ih =>
    have hpos := List.length_pos_iff.2 hne
    simp only [List.length_cons, List.length_append]
    omega
  | openString hinside => exact Nat.zero_le _
  | openEscape hinside => exact Nat.zero_le _

theorem length_tokenize_le (text : List Char) : (tokenize text).1.length ≤ text.length := by
  obtain ⟨tokens, unfinished, hlexes⟩ := exists_lexes text
  rw [hlexes.tokenize_eq]
  exact hlexes.length_le

/-- Reading the first datum of a text by descent ends, with the answer of the reader with open
lists. Every call ends, with one answer, and has taken a token when that is a datum; no call is made
inside of more open lists than the bound, no more calls are under way at once than the bound and one
more, and no more are made than the text has characters and one more. The text is refused for its
nesting exactly if one of its tokens opens a list at the bound before the first datum is read. -/
theorem descent_is_bounded (text : List Char) :
    let tokens := (tokenize text).1
    let unfinished := (tokenize text).2
    (∀ task depth ahead, ∃ answer calls, Reads unfinished task depth ahead answer calls ∧
      ∀ other more, Reads unfinished task depth ahead other more → other = answer ∧ more = calls) ∧
    (∀ depth ahead datum rest calls, Reads unfinished .datum depth ahead (.ok (datum, rest)) calls →
      ∃ first used, ahead = first :: (used ++ rest)) ∧
    (∃ calls, Reads unfinished .datum 0 tokens (readDatum unfinished [] tokens) calls ∧
      (∀ depth ∈ (Calls.call 0 calls .none).depths, depth ≤ maxDepth) ∧
      (Calls.call 0 calls .none).height ≤ maxDepth + 1 ∧
      (Calls.call 0 calls .none).depths.length ≤ text.length + 1) ∧
    ((∃ raw reason, parse text = .unrecognized raw reason ∧ reason.message = "nesting too deep") ↔
      MeetsBound 0 tokens) := by
  intro tokens unfinished
  refine ⟨?_, ?_, ?_, parse_tooDeep_iff text⟩
  · intro task depth ahead
    obtain ⟨answer, calls, hreads⟩ := exists_reads unfinished task depth ahead
    exact ⟨answer, calls, hreads, hreads.unique⟩
  · intro depth ahead datum rest calls hreads
    exact hreads.takes
  · obtain ⟨answer, calls, hreads⟩ := exists_reads unfinished .datum 0 tokens
    have hanswer : readDatum unfinished [] tokens = answer := by
      have hread := hreads.readDatum_eq [] rfl (.inl rfl)
      rw [Task.lists] at hread
      rw [hread]
      cases answer <;> rfl
    obtain ⟨hheight, hdepths⟩ := hreads.within (Nat.zero_le maxDepth)
    have hcount : calls.depths.length ≤ tokens.length := hreads.counts.le
    have hlength := length_tokenize_le text
    refine ⟨calls, hanswer ▸ hreads, ?_, ?_, ?_⟩
    · simpa only [Calls.depths, List.append_nil, List.forall_mem_cons] using
        ⟨Nat.zero_le maxDepth, hdepths⟩
    · simp only [Calls.height]
      omega
    · simp only [Calls.depths, List.append_nil, List.length_cons]
      exact Nat.succ_le_succ (hcount.trans hlength)

/-- One list more than may be open; and a list that is read as an item of another. -/
theorem descent_is_bounded_at_bound :
    let text := List.replicate (maxDepth + 1) '('
    MeetsBound 0 (tokenize text).1 ∧
      Reads none .datum 1 [.parenLeft, .parenRight, .parenRight]
        (.ok (.list [], [.parenRight])) .none ∧
      ∃ first used, [Token.parenLeft, .parenRight, .parenRight] = first :: (used ++ [.parenRight]) := by
  intro text
  have hparse : parse text = .unrecognized (String.ofList text) .tooDeep := rfl
  have hreads : Reads none .datum 1 [.parenLeft, .parenRight, .parenRight]
      (.ok (.list [], [.parenRight])) .none := .opened (by decide) .closed
  refine ⟨?_, hreads, ?_⟩
  · exact (descent_is_bounded text).2.2.2.1 ⟨_, _, hparse, rfl⟩
  · exact (descent_is_bounded text).2.1 _ _ _ _ _ hreads

-- As many lists as the bound may be open.
example : read (List.replicate maxDepth '(' ++ List.replicate maxDepth ')') = .error .noTag := rfl

end RemoteEval.Response
