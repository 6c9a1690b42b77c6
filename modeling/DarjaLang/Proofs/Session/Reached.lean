import DarjaLang.Proofs.Session.Step
import DarjaLang.Proofs.Token.Braces

/-!
# Sessions in the course of a program

* `Session.Reached config lines s` says that a session set up by `config` can be in the state `s`
  when it has been fed `lines`, with any sinks and with its end announced anywhere in between.
* `Token.ofLines` is what the lines of a program consist of.
* `PendingBlock.Collects` is the invariant of a block: its source is made of some lines, the first
  of which only lacks the end of a block and has its brace, and its balance is that of all their
  tokens.
* `Session.Knows` is the invariant of a session: it counts its lines, and a block that it collects
  consists of the last of them.  Every step keeps it (`Knows.feed`, `Knows.finish`), so it holds
  whenever a session is reached (`Reached.knows`).
* `Session.Called` also counts an input that is fed as a whole for one step.  It reaches nothing
  else (`Called.reached`).
-/

set_option autoImplicit false

namespace DarjaLang

/-- The tokens of some lines, the first of which has the given number. -/
def Token.ofLines (number : Nat) : List String → List Token
  | [] => []
  | line :: lines => Token.scan line number ++ Token.ofLines (number + 1) lines

theorem Token.ofLines_concat (number : Nat) (lines : List String) (line : String) :
    Token.ofLines number (lines ++ [line]) =
      Token.ofLines number lines ++ Token.scan line (number + lines.length) := by
  induction lines generalizing number with
  | nil => simp [Token.ofLines]
  | cons first lines ih =>
    rw [List.cons_append, Token.ofLines, ih, Token.ofLines, List.append_assoc, List.length_cons,
      Nat.add_right_comm, Nat.add_assoc]

theorem PendingBlock.ofLine?_eq_some {line : String} {number : Nat} {ts : List Token}
    {block : PendingBlock} (h : PendingBlock.ofLine? line number ts = some block) :
    (∃ opening, Statement.ofTokens? ts = .error ⟨.unterminatedBlock, opening⟩) ∧
      0 < Token.balance ts ∧ ∃ opening, Token.outermostOpen? ts = some opening ∧
        block = ⟨line, number, opening, Token.balance ts⟩ := by
  rw [PendingBlock.ofLine?] at h
  split at h
  · next hread =>
    split at h
    · next hbalance =>
      obtain ⟨opening, hopening, rfl⟩ := Option.map_eq_some_iff.1 h
      exact ⟨⟨_, hread⟩, hbalance, opening, hopening, rfl⟩
    · cases h
  · cases h

/-- A statement starts no block. -/
theorem PendingBlock.ofLine?_eq_none {line : String} {number : Nat} {ts : List Token}
    {st : Statement} (h : Statement.ofTokens? ts = .ok st) :
    PendingBlock.ofLine? line number ts = none := by
  rw [PendingBlock.ofLine?, h]

/-- The block consists of a line that comes behind so many others and starts it, and of further
lines. -/
structure PendingBlock.Collects (block : PendingBlock) (before : Nat) (first : String)
    (more : List String) : Prop where
  firstLine : block.firstLine = before + 1
  source : block.source = "\n".intercalate (first :: more)
  unterminated : ∃ opening, Statement.ofTokens? (Token.scan first block.firstLine) =
    .error ⟨.unterminatedBlock, opening⟩
  opening : Token.outermostOpen? (Token.scan first block.firstLine) = some block.opening
  balance : block.balance = Token.balance (Token.ofLines block.firstLine (first :: more))
  positive : 0 < block.balance

namespace Session

/-- The session can be reached by feeding the lines. -/
inductive Reached (config : Configuration) : List String → Session → Prop
  | start : Reached config [] (start config)
  | feed {lines : List String} {s : Session} {line : String} {bound : Nat} {sink : Sink}
      {a : Answer} (h : Reached config lines s) (ha : s.feedLine bound line sink = some a) :
      Reached config (lines ++ [line]) a.session
  | finish {lines : List String} {s : Session} (h : Reached config lines s) (sink : Sink) :
      Reached config lines (s.finish sink).session

variable {config : Configuration} {lines : List String} {s : Session}

/-- What a session that has been fed the lines knows of them: how many they are, and which of them
belong to the block that it is collecting. -/
structure Knows (lines : List String) (s : Session) : Prop where
  line : s.hasEnded = false → s.line = lines.length
  pending : ∀ block, s.pending = some block → s.hasEnded = false ∧
    ∃ before first more, lines = before ++ first :: more ∧ block.Collects before.length first more

variable {config : Configuration} {lines : List String} {s s' : Session} {line : String}
  {bound : Nat} {sink : Sink} {a : Answer}

theorem knows_start : Knows [] (start config) := ⟨fun _ => rfl, nofun⟩

/-- Without a block, the number of lines is all there is to know. -/
theorem Knows.of_samePlace (h : SamePlace s s') (hline : s.line = lines.length)
    (hpending : s.pending = none) : Knows lines s' := by
  refine ⟨fun _ => h.line.trans hline, fun block hblock => ?_⟩
  rw [h.pending, hpending] at hblock
  cases hblock

/-- A line is counted, and it starts a block, goes on with one, or leaves none. -/
theorem Knows.feed (h : Knows lines s) (ha : Fed s bound line sink a) :
    Knows (lines ++ [line]) a.session := by
  have hline : s.hasEnded = false → s.counted.line = (lines ++ [line]).length := by
    intro hended
    rw [counted_line, h.line hended, List.length_append, List.length_singleton]
  cases ha with
  | ended hended =>
    refine ⟨fun hnot => ?_, fun block hblock => ?_⟩
    · simp [hended] at hnot
    · have hnot := (h.pending block hblock).1
      simp [hended] at hnot
  | blank hended hpending => exact .of_samePlace .rfl (hline hended) hpending
  | opens hended _ _ hblock =>
    refine ⟨fun _ => hline hended, fun block hpending => ⟨hended, lines, line, [], rfl, ?_⟩⟩
    cases hpending
    obtain ⟨hunterminated, hbalance, opening, hopening, rfl⟩ :=
      PendingBlock.ofLine?_eq_some hblock
    refine ⟨congrArg (· + 1) (h.line hended), String.intercalate_singleton.symm, hunterminated,
      hopening, ?_, hbalance⟩
    rw [Token.ofLines, Token.ofLines, List.append_nil]
  | statement hended hpending _ _ hrun =>
    exact .of_samePlace (execute_samePlace hrun) (hline hended) hpending
  | givesUp hended =>
    refine .of_samePlace ?_ (hline hended) (s := s.counted.collecting none) rfl
    exact Answer.andThen_samePlace (report_samePlace _) fun _ => endedBy_samePlace _
  | @goesOn block hended hpending _ hbalance =>
    refine ⟨fun _ => hline hended, fun block' hpending' => ⟨hended, ?_⟩⟩
    cases hpending'
    obtain ⟨-, before, first, more, hlines, hcollects⟩ := h.pending block hpending
    refine ⟨before, first, more ++ [line], by rw [hlines, List.append_assoc, List.cons_append],
      hcollects.firstLine, ?_, hcollects.unterminated, hcollects.opening, ?_, hbalance⟩
    · rw [← List.cons_append, String.intercalate_append_of_ne_nil (by simp) (by simp),
        String.intercalate_singleton, ← hcollects.source]
      rfl
    have hnumber : s.line + 1 = block.firstLine + (first :: more).length := by
      rw [h.line hended, hlines, hcollects.firstLine, List.length_append]
      omega
    have htokens := Token.ofLines_concat block.firstLine (first :: more) line
    rw [← hnumber, List.cons_append] at htokens
    dsimp only [PendingBlock.extend]
    rw [htokens, Token.balance_append, ← hcollects.balance]
  | closes hended _ _ _ hrun =>
    exact .of_samePlace (execute_samePlace hrun) (hline hended) rfl

/-- At the end of the input a session gives up the block that it was collecting. -/
theorem finish_samePlace (hended : s.hasEnded = false) (sink : Sink) :
    SamePlace (s.collecting none) (s.finish sink).session := by
  rw [finish, if_neg (ne_true_of_eq_false hended)]
  refine Answer.andThen_samePlace ?_ fun _ => endedBy_samePlace _
  split
  · exact report_samePlace _
  · next hpending => exact ⟨rfl, rfl, hpending⟩

theorem Knows.finish (h : Knows lines s) (sink : Sink) : Knows lines (s.finish sink).session := by
  by_cases hended : s.hasEnded = true
  · rw [finish_of_hasEnded hended]
    exact h
  · rw [Bool.not_eq_true] at hended
    exact .of_samePlace (finish_samePlace hended sink) (h.line hended) rfl

/-- **Whenever a session is reached, it knows the lines it was fed.** -/
theorem Reached.knows (h : Reached config lines s) : Knows lines s := by
  induction h with
  | start => exact knows_start
  | feed _ ha ih => exact ih.feed (feedLine_eq_some_iff.1 ha)
  | finish _ sink ih => exact ih.finish sink

/-! ## Whole inputs -/

/-- The lines of an input that could be read. -/
def readable (input : List (Except StreamError String)) : List String :=
  input.filterMap Except.toOption

theorem readable_ok (line : String) (input : List (Except StreamError String)) :
    readable (.ok line :: input) = line :: readable input := rfl

/-- The session can be reached by calls that feed it the lines, one by one or as a whole input. -/
inductive Called (config : Configuration) : List String → Session → Prop
  | start : Called config [] (start config)
  | feedLine {lines : List String} {s : Session} {line : String} {bound : Nat} {sink : Sink}
      {a : Answer} (h : Called config lines s) (ha : s.feedLine bound line sink = some a) :
      Called config (lines ++ [line]) a.session
  | feedAll {lines : List String} {s : Session} {input : List (Except StreamError String)}
      {bound looked : Nat} {sink : Sink} {a : Answer} (h : Called config lines s)
      (ha : s.feedAll bound input sink = some (a, looked)) :
      Called config (lines ++ readable (input.take looked)) a.session
  | finish {lines : List String} {s : Session} (h : Called config lines s) (sink : Sink) :
      Called config lines (s.finish sink).session

/-- To feed a whole input is to feed the lines that are looked at, and perhaps the end. -/
theorem Reached.feedAll {input : List (Except StreamError String)} {looked : Nat}
    (h : Reached config lines s) (ha : s.feedAll bound input sink = some (a, looked)) :
    Reached config (lines ++ readable (input.take looked)) a.session := by
  induction input generalizing lines s sink looked with
  | nil =>
    cases ha
    rw [List.take_nil, readable, List.filterMap_nil, List.append_nil]
    exact h.finish sink
  | cons next rest ih =>
    cases next with
    | error e =>
      cases ha
      exact (List.append_nil lines).symm ▸ h
    | ok line =>
      rw [Session.feedAll] at ha
      split at ha
      · cases ha
      next fed hfed =>
      split at ha
      · cases ha
        exact h.feed hfed
      · obtain ⟨⟨last, more⟩, hrest, hlast⟩ := Option.map_eq_some_iff.1 ha
        cases hlast
        rw [List.take_succ_cons, readable_ok, ← List.singleton_append, ← List.append_assoc]
        exact ih (h.feed hfed) hrest

/-- Whatever calls can reach can be reached line by line. -/
theorem Called.reached (h : Called config lines s) : Reached config lines s := by
  induction h with
  | start => exact .start
  | feedLine _ ha ih => exact ih.feed ha
  | feedAll _ ha ih => exact ih.feedAll ha
  | finish _ sink ih => exact ih.finish sink

end Session

end DarjaLang
