import DarjaLang.Proofs.Session.Ahead

/-!
# A block that is fed as a whole

A session that collects a block weighs its lines one by one, and reads them together when the last
one closes the block.  Fed the same lines as one text, it does just that at once, with the same
result: newlines cut a text where the lines end, and the statement stands in the same place.

* `PendingBlock.joining` is a block with further lines, and `transcript_of_open` says that a session
  collects lines without a word as long as the block stays open.
* `feedLine_closing`: the line that closes a block does what the whole text would have done.
* `whole_block_iff` is the result.
-/

set_option autoImplicit false

namespace DarjaLang

namespace Token

/-- Whether a line is the sentinel does not depend on its number. -/
theorem isSentinelLine_scan_eq (line : String) (number number' : Nat) :
    isSentinelLine (scan line number) = isSentinelLine (scan line number') := by
  have hshift : ∀ (ts : List Token) (k : Nat),
      isSentinelLine (ts.map (·.shiftDown k)) = isSentinelLine ts := by
    intro ts k
    cases ts with
    | nil => rfl
    | cons t ts =>
      have hrest : (ts.map (·.shiftDown k)).all isTerminator = ts.all isTerminator := by
        rw [List.all_map]
        rfl
      rw [List.map_cons, isSentinelLine, isSentinelLine, hrest]
      rfl
  have h : ∀ number, isSentinelLine (scan line number) = isSentinelLine (scan line 0) :=
    fun number => by rw [← Nat.zero_add number, scan_shiftDown, hshift]
  rw [h number, h number']

end Token

namespace PendingBlock

variable {block : PendingBlock} {number : Nat}

/-- The block when it has collected further lines, the first of which has the given number. -/
def joining (block : PendingBlock) (number : Nat) (lines : List String) : PendingBlock :=
  ⟨"\n".intercalate (block.source :: lines), block.firstLine, block.opening,
    block.balance + Token.balance (Token.ofLines number lines)⟩

theorem joining_nil : block.joining number [] = block := by
  rw [joining, String.intercalate_singleton, Token.ofLines, Token.balance_nil, Int.add_zero]

theorem joining_cons (line : String) (lines : List String) :
    block.joining number (line :: lines) =
      (block.extend line (Token.balance (Token.scan line number))).joining (number + 1) lines := by
  have hsource : "\n".intercalate (block.source :: line :: lines) =
      "\n".intercalate ((block.source ++ "\n" ++ line) :: lines) := by
    cases lines <;> simp [String.intercalate_cons_cons, String.append_assoc]
  rw [joining, joining, Token.ofLines, Token.balance_append, hsource, ← Int.add_assoc]
  rfl

theorem joining_concat (lines : List String) (line : String) :
    block.joining number (lines ++ [line]) = (block.joining number lines).extend line
      (Token.balance (Token.scan line (number + lines.length))) := by
  induction lines generalizing block number with
  | nil => rw [List.nil_append, joining_cons, joining_nil, joining_nil]; rfl
  | cons first lines ih =>
    rw [List.cons_append, joining_cons, ih, ← joining_cons, List.length_cons, Nat.add_right_comm,
      Nat.add_assoc]

end PendingBlock

namespace Session

variable {s s' : Session} {block : PendingBlock} {line : String} {lines : List String}
  {items : List Item} {written : List (List Item)} {first : String} {more : List String}

/-! ## Lines that leave the block open -/

/-- The session when it has collected lines for a block. -/
def gathering (s : Session) (block : PendingBlock) (lines : List String) : Session :=
  { s with line := s.line + lines.length, pending := some (block.joining (s.line + 1) lines) }

theorem gathering_nil (hpending : s.pending = some block) : s.gathering block [] = s := by
  rw [gathering, PendingBlock.joining_nil, ← hpending]
  rfl

theorem gathering_cons : s.gathering block (line :: lines) =
    (s.gathering block [line]).gathering
      (block.extend line (Token.balance (Token.scan line (s.line + 1)))) lines := by
  rw [gathering, gathering, PendingBlock.joining_cons, List.length_cons]
  simp [gathering, Nat.add_assoc, Nat.add_comm 1]

/-- A session collects lines without a word as long as the block stays open. -/
theorem transcript_of_open (hrunning : s.hasEnded = false) (hpending : s.pending = some block)
    (hsentinel : ∀ line ∈ lines, Token.isSentinelLine (Token.scan line 1) = false)
    (hopen : ∀ seen, seen <+: lines → 0 < (block.joining (s.line + 1) seen).balance) :
    s.Transcript lines (.replicate lines.length []) (s.gathering block lines) := by
  induction lines generalizing s block with
  | nil =>
    rw [gathering_nil hpending]
    exact .nil
  | cons line lines ih =>
    have hline : Token.isSentinelLine (Token.scan line (s.line + 1)) = false := by
      rw [Token.isSentinelLine_scan_eq line _ 1, hsentinel line List.mem_cons_self]
    have hbalance := hopen [line] ⟨lines, rfl⟩
    rw [PendingBlock.joining_cons, PendingBlock.joining_nil] at hbalance
    have hwrites : s.Writes line [] (s.gathering block [line]) := by
      refine ⟨0, 0, fun sink _ => ?_⟩
      rw [feedLine_eq_some_iff.2 (.goesOn hrunning hpending hline hbalance), Sink.taking_nil,
        gathering, PendingBlock.joining_cons, PendingBlock.joining_nil]
      rfl
    rw [gathering_cons]
    refine .cons hwrites (ih hrunning ?_ (fun l hl => hsentinel l (List.mem_cons_of_mem line hl))
      fun seen hseen => ?_)
    · rw [gathering, PendingBlock.joining_cons, PendingBlock.joining_nil]
    · have hpos := hopen (line :: seen) ((List.prefix_cons_inj line).2 hseen)
      rwa [PendingBlock.joining_cons] at hpos

/-! ## The first line and the last one -/

/-- The block that a line starts. -/
def startedBy (s : Session) (line : String) (opening : Position) : PendingBlock :=
  ⟨line, s.line + 1, opening, Token.balance (Token.scan line (s.line + 1))⟩

/-- A session that has started a block has written nothing, and knows where the block starts. -/
theorem Writes.of_awaitsBlock (h : s.Writes line items s') (hrunning : s.hasEnded = false)
    (hpending : s.pending = none) (hawaits : s'.awaitsBlock = true) :
    0 < Token.balance (Token.scan line (s.line + 1)) ∧ items = [] ∧
      ∃ opening, s' = s.counted.collecting (some (s.startedBy line opening)) := by
  obtain ⟨bound, flushes, hfed⟩ := h
  obtain ⟨hline, block, hblock⟩ :=
    (feedLine_eq_some_iff.1 (hfed .working Sink.works_working)).ofLine?_of_awaitsBlock
      hrunning hpending hawaits
  obtain ⟨-, hbalance, opening, -, rfl⟩ := PendingBlock.ofLine?_eq_some hblock
  have hstarts : s.Writes line [] (s.counted.collecting (some (s.startedBy line opening))) := by
    refine ⟨0, 0, fun sink _ => ?_⟩
    rw [feedLine_eq_some_iff.2 (.opens hrunning hpending hline hblock), Sink.taking_nil]
    rfl
  obtain ⟨hitems, hs'⟩ := hstarts.unique ⟨bound, flushes, hfed⟩
  exact ⟨hbalance, hitems, opening, hs'⟩

/-! ## The line that closes the block -/

/-- Further lines stand behind the first one if they close what it leaves open. -/
theorem exists_intercalate_eq {number : Nat} (hopens : 0 < Token.balance (Token.scan first number))
    (hclosed : Token.balance (Token.ofLines number (first :: more)) ≤ 0) :
    ∃ behind, "\n".intercalate (first :: more) = first ++ "\n" ++ behind := by
  cases more with
  | nil =>
    rw [Token.ofLines, Token.ofLines, List.append_nil] at hclosed
    omega
  | cons line lines => exact ⟨_, String.intercalate_cons_cons⟩

/-- A text that opens a block in its first line and closes it is taken for a statement. -/
theorem feedLine_whole (hrunning : s.hasEnded = false) (hpending : s.pending = none)
    (hopens : 0 < Token.balance (Token.scan first (s.line + 1)))
    (hclosed : Token.balance (Token.ofLines (s.line + 1) (first :: more)) ≤ 0)
    (bound : Nat) (sink : Sink) :
    s.feedLine bound ("\n".intercalate (first :: more)) sink =
      s.counted.execute bound
        (Token.scan ("\n".intercalate (first :: more)) (s.line + 1)) sink := by
  have hline : (Token.scan ("\n".intercalate (first :: more)) (s.line + 1)).all
      Token.isTerminator = false := by
    obtain ⟨opening, hopening⟩ := Option.isSome_iff_exists.1 (Token.outermostOpen?_isSome hopens)
    obtain ⟨t, ht, hbrace, -⟩ := Token.mem_openBraces (List.mem_of_getLast? hopening)
    obtain ⟨behind, hwhole⟩ := exists_intercalate_eq hopens hclosed
    rw [hwhole, List.all_eq_false]
    have hterminator : t.isTerminator = false := by
      rw [Token.isTerminator, hbrace]
      rfl
    exact ⟨t, Token.mem_scan_append_newline ht (by simp [hbrace]) behind, by simp [hterminator]⟩
  have hblock : PendingBlock.ofLine? ("\n".intercalate (first :: more)) (s.line + 1)
      (Token.scan ("\n".intercalate (first :: more)) (s.line + 1)) = none := by
    refine Option.eq_none_iff_forall_ne_some.2 fun block hsome => ?_
    have hpos := (PendingBlock.ofLine?_eq_some hsome).2.1
    rw [Token.balance_scan_intercalate] at hpos
    omega
  exact feedLine_of_statement hrunning hpending hline hblock

/-- What a text opens in its first line and closes is not the sentinel. -/
theorem ofTokens_whole_ne_termination {number : Nat}
    (hopens : 0 < Token.balance (Token.scan first number))
    (hclosed : Token.balance (Token.ofLines number (first :: more)) ≤ 0) (position : Position) :
    Statement.ofTokens (Token.scan ("\n".intercalate (first :: more)) number) ≠
      .termination position := by
  obtain ⟨behind, hwhole⟩ := exists_intercalate_eq hopens hclosed
  rw [hwhole]
  exact ofTokens_ne_termination_of_open hopens behind position

/-- The line that closes a block does what the whole text would have done. -/
theorem feedLine_closing (hrunning : s.hasEnded = false) (hpending : s.pending = none)
    (opening : Position) (hopens : 0 < Token.balance (Token.scan first (s.line + 1)))
    (hsentinel : Token.isSentinelLine (Token.scan line 1) = false)
    (hclosed : Token.balance (Token.ofLines (s.line + 1) (first :: (lines ++ [line]))) ≤ 0)
    (bound : Nat) (sink : Sink) :
    ((s.counted.collecting (some (s.startedBy first opening))).gathering
        (s.startedBy first opening) lines).feedLine bound line sink =
      (s.feedLine bound ("\n".intercalate (first :: (lines ++ [line]))) sink).map
        (·.ahead (lines ++ [line]).length 0) := by
  have hlast : s.line + 1 + lines.length + 1 = s.line + 1 + 1 + lines.length :=
    Nat.add_right_comm _ _ _
  have hline :
      Token.isSentinelLine (Token.scan line (s.line + 1 + lines.length + 1)) = false := by
    rw [Token.isSentinelLine_scan_eq line _ 1, hsentinel]
  have hblock : ((s.startedBy first opening).joining (s.line + 1 + 1) lines).extend line
      (Token.balance (Token.scan line (s.line + 1 + lines.length + 1))) =
        (s.startedBy first opening).joining (s.line + 1 + 1) (lines ++ [line]) := by
    rw [PendingBlock.joining_concat, hlast]
  have hbalance : ((s.startedBy first opening).joining (s.line + 1 + 1) (lines ++ [line])).balance =
      Token.balance (Token.ofLines (s.line + 1) (first :: (lines ++ [line]))) := by
    rw [Token.ofLines, Token.balance_append]
    rfl
  have hsession : ((s.counted.collecting (some (s.startedBy first opening))).gathering
      (s.startedBy first opening) lines).counted.collecting none =
        s.counted.ahead (lines ++ [line]).length 0 := by
    cases s with
    | mk config env number diagnostics pending ending =>
      cases hpending
      rw [List.length_append]
      rfl
  rw [feedLine_whole hrunning hpending hopens hclosed,
    ← execute_ahead (.inr (ofTokens_whole_ne_termination hopens hclosed)), ← hsession]
  rw [← hbalance, ← hblock] at hclosed
  rw [feedLine_of_closes (s := (s.counted.collecting _).gathering _ _) hrunning rfl hline hclosed]
  exact congrArg (fun block => execute _ bound (PendingBlock.tokens block) sink) hblock

/-! ## The result -/

/-- The lines are collected for a block: the first one starts it, the last one of the others closes
it, no line in between does, and no line says `khlas`. -/
structure Gathers (s : Session) (first : String) (more : List String) : Prop where
  running : s.hasEnded = false
  idle : s.pending = none
  starts : ∃ items s₁, s.Writes first items s₁ ∧ s₁.awaitsBlock = true
  noSentinel : ∀ line ∈ more, Token.isSentinelLine (Token.scan line 1) = false
  goesOn : ∀ seen, seen <+: more → seen ≠ more →
    0 < Token.balance (Token.ofLines (s.line + 1) (first :: seen))
  closes : Token.balance (Token.ofLines (s.line + 1) (first :: more)) ≤ 0

theorem Gathers.opens (h : s.Gathers first more) :
    0 < Token.balance (Token.scan first (s.line + 1)) := by
  obtain ⟨items, s₁, hstarts, hawaits⟩ := h.starts
  exact (hstarts.of_awaitsBlock h.running h.idle hawaits).1

/-- There is a last line. -/
theorem Gathers.exists_concat (h : s.Gathers first more) :
    ∃ lines line, more = lines ++ [line] := by
  rcases List.eq_nil_or_concat' more with rfl | hconcat
  · have hopens := h.opens
    have hcloses := h.closes
    rw [Token.ofLines, Token.ofLines, List.append_nil] at hcloses
    omega
  · exact hconcat

/-- Up to the last line, a session only collects. -/
theorem Gathers.exists_transcript (h : s.Gathers first (lines ++ [line])) :
    ∃ opening, s.Transcript (first :: lines) (.replicate (lines.length + 1) [])
      ((s.counted.collecting (some (s.startedBy first opening))).gathering
        (s.startedBy first opening) lines) := by
  obtain ⟨items, s₁, hstarts, hawaits⟩ := h.starts
  obtain ⟨-, rfl, opening, rfl⟩ := hstarts.of_awaitsBlock h.running h.idle hawaits
  refine ⟨opening, .cons hstarts (transcript_of_open h.running rfl
    (fun l hl => h.noSentinel l (List.mem_append_left _ hl)) fun seen hseen => ?_)⟩
  have hne : seen ≠ lines ++ [line] := by
    rintro rfl
    have hlength := hseen.length_le
    simp at hlength
  have hpos := h.goesOn seen (hseen.trans (List.prefix_append lines [line])) hne
  rwa [Token.ofLines, Token.balance_append] at hpos

/-- The whole text is a statement, and it does not end the session. -/
theorem Gathers.whole (h : s.Gathers first more)
    (hwhole : s.Writes ("\n".intercalate (first :: more)) items s') :
    s'.hasEnded = false ∧ s'.pending = none ∧ s'.line = s.line + 1 := by
  obtain ⟨bound, flushes, hfed⟩ := hwhole
  have hrun := hfed .working Sink.works_working
  rw [feedLine_whole h.running h.idle h.opens h.closes] at hrun
  have hplace := execute_samePlace hrun
  refine ⟨?_, hplace.pending.trans h.idle, hplace.line⟩
  rw [← Bool.not_eq_true]
  intro hended
  have hcounted : s.counted.hasEnded = false := h.running
  obtain ⟨position, hread⟩ := exists_termination_of_execute hcounted hrun hended
  exact ofTokens_whole_ne_termination h.opens h.closes position hread

/-- **To collect a block line by line is to have it whole.**  Nothing is written until the last
line.  For that one, the session writes just what it would have written for the whole text, to the
very places in its diagnostics, and it becomes the same session, save that it has counted all the
lines: it is still running, and there is nothing left of the block. -/
theorem whole_block_iff (h : s.Gathers first more) :
    s.Transcript (first :: more) written s' ↔
      ∃ items s₁, s.Writes ("\n".intercalate (first :: more)) items s₁ ∧
        s₁.hasEnded = false ∧ s₁.pending = none ∧ s₁.line = s.line + 1 ∧
        written = .replicate more.length [] ++ [items] ∧ s' = s₁.ahead more.length 0 := by
  obtain ⟨lines, line, rfl⟩ := h.exists_concat
  obtain ⟨opening, hcollects⟩ := h.exists_transcript
  have hsentinel := h.noSentinel line (List.mem_append_right lines List.mem_cons_self)
  have hlast := writes_iff_of_ahead
    (feedLine_closing h.running h.idle opening h.opens hsentinel h.closes)
  have hlength : (lines ++ [line]).length = lines.length + 1 := List.length_append
  rw [← List.cons_append, hcollects.append_iff, hlength]
  constructor
  · rintro ⟨last, rfl, hclosing⟩
    cases hclosing with
    | cons hline hnil =>
      cases hnil
      obtain ⟨s₁, hwhole, rfl⟩ := (hlast _ _).1 hline
      obtain ⟨hrunning, hpending, hnumber⟩ := h.whole hwhole
      exact ⟨_, s₁, hwhole, hrunning, hpending, hnumber, rfl, by rw [hlength]⟩
  · rintro ⟨items, s₁, hwhole, -, -, -, rfl, rfl⟩
    exact ⟨[items], rfl, .single ((hlast items _).2 ⟨s₁, hwhole, by rw [hlength]⟩)⟩

set_option maxRecDepth 1000 in
/-- A brace in a comment closes nothing, and one of the braces in the last line is one too many.  It
is found at the same place either way. -/
theorem whole_block_iff_trailing_brace :
    (start ⟨true, none⟩).Gathers "ila sah \x7b" [" // \x7d", "\x7d \x7d"] ∧
      (start ⟨true, none⟩).Writes "ila sah \x7b\n // \x7d\n\x7d \x7d"
        [.diagnostic ⟨.unparsed (.trailingTokens "'\x7d'"), ⟨3, 3⟩⟩]
        ⟨⟨true, none⟩, .empty, 1, 1, none, none⟩ ∧
      (start ⟨true, none⟩).Transcript ["ila sah \x7b", " // \x7d", "\x7d \x7d"]
        [[], [], [.diagnostic ⟨.unparsed (.trailingTokens "'\x7d'"), ⟨3, 3⟩⟩]]
        ⟨⟨true, none⟩, .empty, 3, 1, none, none⟩ := by
  have hstarts : (start ⟨true, none⟩).feedLine 0 "ila sah \x7b" .working =
      some ⟨⟨⟨true, none⟩, .empty, 1, 0, some ⟨"ila sah \x7b", 1, ⟨1, 9⟩, 1⟩, none⟩,
        .working, none⟩ := by cbv
  have hwhole : (start ⟨true, none⟩).feedLine 0 "ila sah \x7b\n // \x7d\n\x7d \x7d" .working =
      some ⟨⟨⟨true, none⟩, .empty, 1, 1, none, none⟩,
        ⟨Sink.working.writeFate, Sink.working.flushFate, 1, 1,
          #[.diagnostic ⟨.unparsed (.trailingTokens "'\x7d'"), ⟨3, 3⟩⟩]⟩, none⟩ := by cbv
  have hgathers : (start ⟨true, none⟩).Gathers "ila sah \x7b" [" // \x7d", "\x7d \x7d"] := by
    refine ⟨rfl, rfl, ⟨_, _, writes_of_working hstarts, rfl⟩, by decide, fun seen hseen hne => ?_,
      by decide⟩
    rw [← List.mem_inits] at hseen
    simp only [List.inits, List.map_cons, List.map_nil, List.mem_cons, List.not_mem_nil,
      or_false] at hseen
    rcases hseen with rfl | rfl | rfl
    · decide
    · decide
    · exact absurd rfl hne
  have hwrites := writes_of_working hwhole
  exact ⟨hgathers, hwrites,
    (whole_block_iff hgathers).2 ⟨_, _, hwrites, rfl, rfl, rfl, rfl, rfl⟩⟩

end Session

end DarjaLang
