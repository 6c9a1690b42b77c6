import DarjaLang.Proofs.Position
import DarjaLang.Proofs.Token.Scan
import DarjaLang.Token.Braces

/-!
# Texts of several lines

Nothing that is scanned reaches across a newline, so what stands behind one is scanned as a text of
its own, and only the places of its tokens depend on what stands in front.

* `scan_shiftDown`: further lines in front of a text move its tokens down and change nothing else.
* `scan_append_newline`: a newline cuts a text into two that are scanned one by one.
* `balance_scan_append_newline`, `mem_scan_append_newline`: what follows for the braces of a text
  and for its tokens.
* `atLines_of_mem_intercalate`: what follows for the places of tokens when lines are joined.
-/

set_option autoImplicit false

namespace DarjaLang

namespace Token

/-! ## Lines in front of a text -/

/-- The same token in a text that has `k` more lines in front of it. -/
def shiftDown (t : Token) (k : Nat) : Token := ⟨t.kind, t.lexeme, t.position.shiftDown k⟩

theorem scanFrom_shiftDown (place : Position) (skip : Nat) (cs : List Char) (k : Nat) :
    scanFrom (place.shiftDown k) skip cs = (scanFrom place skip cs).map (·.shiftDown k) := by
  induction cs generalizing place skip with
  | nil => rw [scanFrom, scanFrom, List.map_nil]
  | cons c cs ih =>
    have ih := fun skip => ih ⟨place.line, place.column + 1⟩ skip
    cases skip with
    | succ skip => exact ih skip
    | zero =>
      rw [scanFrom, scanFrom]
      cases pieceAt c cs with
      | gap more => exact ih more
      | token kind more => exact congrArg (List.cons _) (ih more)

theorem scanLines_shiftDown (line : Nat) (read cs : List Char) (k : Nat) :
    scanLines (line + k) read cs = (scanLines line read cs).map (·.shiftDown k) := by
  have hline : ∀ line cs, scanLine (line + k) cs = (scanLine line cs).map (·.shiftDown k) :=
    fun line cs => scanFrom_shiftDown ⟨line, 1⟩ 0 cs k
  fun_induction scanLines line read cs with
  | case1 line read =>
    rw [scanLines, List.map_append, hline]
    rfl
  | case2 line read rest read' ih =>
    rw [scanLines, List.map_append, hline]
    refine congrArg _ (congrArg (List.cons _) ?_)
    split
    · rfl
    · rwa [Nat.add_right_comm line k 1]
  | case3 line read c rest hc ih => rwa [scanLines.eq_3 _ _ _ _ hc]

/-- Further lines in front of a text move its tokens down. -/
theorem scan_shiftDown (text : String) (line k : Nat) :
    scan text (line + k) = (scan text line).map (·.shiftDown k) :=
  scanLines_shiftDown line [] text.toList k

theorem balance_map_shiftDown (ts : List Token) (k : Nat) :
    balance (ts.map (·.shiftDown k)) = balance ts := by
  induction ts with
  | nil => rfl
  | cons t ts ih => rw [List.map_cons, balance_cons, balance_cons, ih]; rfl

/-- The braces of a text do not depend on the number of its first line. -/
theorem balance_scan_eq (text : String) (line line' : Nat) :
    balance (scan text line) = balance (scan text line') := by
  have h : ∀ line, balance (scan text line) = balance (scan text 0) := fun line => by
    rw [← Nat.zero_add line, scan_shiftDown, balance_map_shiftDown]
  rw [h line, h line']

/-! ## The end of a text -/

/-- The end of a text that does not end with a newline. -/
def isOpenEnd (t : Token) : Bool :=
  match t.kind with
  | .endOfLine => t.lexeme == ""
  | _ => false

/-- The tokens without such an end, if they have one. -/
def dropOpenEnd (ts : List Token) : List Token :=
  if ts.getLast?.any isOpenEnd then ts.dropLast else ts

theorem dropOpenEnd_concat (ts : List Token) (t : Token) :
    dropOpenEnd (ts ++ [t]) = if t.isOpenEnd then ts else ts ++ [t] := by
  simp [dropOpenEnd]

/-- The tokens of a text whose first line has been read up to here, without the end of its last
line. -/
def scanUnended (line : Nat) (read : List Char) : List Char → List Token
  | [] => scanLine line read.reverse
  | '\n' :: rest =>
    scanLine line read.reverse ++ lineEnd line read.reverse "\n" :: scanUnended (line + 1) [] rest
  | c :: rest => scanUnended line (c :: read) rest

/-- The place behind the part of a line that has been read. -/
theorem position_lineEnd_reverse (line : Nat) (read : List Char) (lexeme : String) :
    lineEnd line read.reverse lexeme = ⟨.endOfLine, lexeme, ⟨line, read.length + 1⟩⟩ := by
  rw [lineEnd, List.length_reverse]

/-- A text that does not end with a newline has an end behind its last line. -/
theorem scanLines_eq (line : Nat) (read cs : List Char) :
    scanLines line read cs = scanUnended line read cs ++
      if cs.getLast? = some '\n' then []
      else [⟨.endOfLine, "", (⟨line, read.length + 1⟩ : Position).after cs⟩] := by
  fun_induction scanLines line read cs with
  | case1 line read => rw [position_lineEnd_reverse]; rfl
  | case2 line read rest read' ih =>
    cases rest with
    | nil => simp [scanUnended, read', scanLine, scanFrom]
    | cons c rest =>
      rw [if_neg (by simp), ih, scanUnended, List.getLast?_cons_cons, Position.after_newline,
        List.append_assoc, List.cons_append]
      rfl
  | case3 line read c rest hc ih =>
    have hlast : (c :: rest).getLast? = some '\n' ↔ rest.getLast? = some '\n' := by
      cases rest with
      | nil => simpa using hc
      | cons d rest => rw [List.getLast?_cons_cons]
    rw [ih, scanUnended.eq_3 _ _ _ _ hc, Position.after_cons_of_ne hc, List.length_cons]
    simp only [hlast]

/-- A newline ends the last line in front of it, and what stands behind it is scanned as a text of
its own. -/
theorem scanLines_append_newline (line : Nat) (read cs behind : List Char) :
    scanLines line read (cs ++ '\n' :: behind) = scanUnended line read cs ++
      ⟨.endOfLine, "\n", (⟨line, read.length + 1⟩ : Position).after cs⟩ ::
        if behind.isEmpty then [] else scanLines (line + cs.count '\n' + 1) [] behind := by
  fun_induction scanUnended line read cs with
  | case1 line read =>
    rw [List.nil_append, scanLines, position_lineEnd_reverse]
    rfl
  | case2 line read rest ih =>
    rw [List.cons_append, scanLines, if_neg (by simp), ih, List.count_cons_self,
      Position.after_newline, Nat.add_right_comm line 1, Nat.add_assoc line, List.append_assoc,
      List.cons_append]
    rfl
  | case3 line read c rest hc ih =>
    rw [List.cons_append, scanLines.eq_3 _ _ _ _ hc, ih, List.count_cons_of_ne hc,
      Position.after_cons_of_ne hc, List.length_cons]

/-- A text that does not end with a newline has an end behind its last line. -/
theorem scan_eq (text : String) (line : Nat) :
    scan text line = scanUnended line [] text.toList ++
      if text.toList.getLast? = some '\n' then []
      else [⟨.endOfLine, "", .behind line text.toList⟩] := by
  rw [scan, scanLines_eq, ← Position.after_eq_behind]
  rfl

/-- Without an open end, the tokens of a text are those in front of the end of its last line. -/
theorem dropOpenEnd_scan (text : String) (line : Nat) :
    dropOpenEnd (scan text line) = scanUnended line [] text.toList := by
  by_cases hlast : text.toList.getLast? = some '\n'
  · have hopen : scan text line = scanUnended line [] text.toList := by
      rw [scan_eq, if_pos hlast, List.append_nil]
    obtain ⟨cs, hcs⟩ := List.getLast?_eq_some_iff.1 hlast
    have hclosed := scanLines_append_newline line [] cs []
    rw [← hcs, List.isEmpty_nil, if_pos rfl] at hclosed
    rw [← hopen, scan, hclosed, dropOpenEnd_concat]
    rfl
  · rw [scan_eq, if_neg hlast, dropOpenEnd_concat]
    rfl

/-! ## Newlines inside a text -/

theorem toList_append_newline (text behind : String) :
    (text ++ "\n" ++ behind).toList = text.toList ++ '\n' :: behind.toList := by
  simp

/-- **A newline cuts a text in two**: what stands behind it is scanned as a text of its own, and it
ends the last line in front of it. -/
theorem scan_append_newline (text behind : String) (line : Nat) :
    scan (text ++ "\n" ++ behind) line = dropOpenEnd (scan text line) ++
      ⟨.endOfLine, "\n", .behind line text.toList⟩ ::
        if behind = "" then [] else scan behind (line + newlines text + 1) := by
  rw [scan, toList_append_newline, scanLines_append_newline, dropOpenEnd_scan,
    ← Position.after_eq_behind]
  simp [scan, newlines]

theorem balance_dropOpenEnd_scan (text : String) (line : Nat) :
    balance (dropOpenEnd (scan text line)) = balance (scan text line) := by
  rw [dropOpenEnd_scan, scan_eq, balance_append]
  split
  · exact (Int.add_zero _).symm
  · exact (Int.add_zero _).symm

/-- The balance of a text is that of what stands in front of a newline and what stands behind it. -/
theorem balance_scan_append_newline (text behind : String) (line line' : Nat) :
    balance (scan (text ++ "\n" ++ behind) line) =
      balance (scan text line) + balance (scan behind line') := by
  have hbehind : balance (if behind = "" then [] else scan behind (line + newlines text + 1)) =
      balance (scan behind line') := by
    split
    · next hempty =>
      rw [hempty]
      rfl
    · exact balance_scan_eq behind _ line'
  rw [scan_append_newline, balance_append, balance_cons, hbehind, balance_dropOpenEnd_scan]
  exact congrArg _ (Int.zero_add _)

/-- A further line leaves the tokens in front of it alone, up to the end of the line. -/
theorem mem_scan_append_newline {text : String} {line : Nat} {t : Token}
    (ht : t ∈ scan text line) (hkind : t.kind ≠ .endOfLine) (behind : String) :
    t ∈ scan (text ++ "\n" ++ behind) line := by
  have hunended : t ∈ scanUnended line [] text.toList := by
    rw [scan_eq] at ht
    refine (List.mem_append.1 ht).resolve_right fun hmem => ?_
    split at hmem
    · cases hmem
    · rw [List.mem_singleton.1 hmem] at hkind
      exact hkind rfl
  rw [scan_append_newline, dropOpenEnd_scan]
  exact List.mem_append_left _ hunended

/-! ## Lines that are joined -/

/-- The place is that of a token of one of the lines, the first of which has the given number. -/
def AtLines (number : Nat) (lines : List String) (p : Position) : Prop :=
  ∃ before line behind, lines = before ++ line :: behind ∧ p.line = number + before.length ∧
    ∃ t ∈ scan line p.line, t.position = p

theorem AtLines.cons {number : Nat} {lines : List String} {p : Position}
    (h : AtLines (number + 1) lines p) (first : String) : AtLines number (first :: lines) p := by
  obtain ⟨before, line, behind, rfl, hp, ht⟩ := h
  refine ⟨first :: before, line, behind, rfl, ?_, ht⟩
  rw [hp, List.length_cons, Nat.add_right_comm, Nat.add_assoc]

theorem AtLines.append {number : Nat} {lines : List String} {p : Position} {before : List String}
    (h : AtLines (number + before.length) lines p) : AtLines number (before ++ lines) p := by
  induction before generalizing number with
  | nil => exact h
  | cons first before ih =>
    refine (ih ?_).cons first
    rwa [Nat.add_right_comm]

/-- A token of a line stands at that line. -/
theorem atLines_of_mem {line : String} (hline : '\n' ∉ line.toList) {number : Nat} {t : Token}
    (ht : t ∈ scan line number) (more : List String) :
    AtLines number (line :: more) t.position := by
  have hnumber := line_of_mem_scan hline ht
  exact ⟨[], line, more, rfl, hnumber, t, hnumber ▸ ht, rfl⟩

/-- The end of a line without newlines stands where its newline would. -/
theorem atLines_behind {line : String} (hline : '\n' ∉ line.toList) (number : Nat)
    (more : List String) : AtLines number (line :: more) (.behind number line.toList) := by
  have hlast : line.toList.getLast? ≠ some '\n' := fun hlast =>
    hline (List.mem_of_getLast? hlast)
  have ht : ⟨.endOfLine, "", .behind number line.toList⟩ ∈ scan line number := by
    rw [scan_eq, if_neg hlast]
    exact List.mem_append_right _ (List.mem_singleton_self _)
  exact atLines_of_mem hline ht more

theorem mem_of_mem_dropOpenEnd {ts : List Token} {t : Token} (h : t ∈ dropOpenEnd ts) : t ∈ ts := by
  rw [dropOpenEnd] at h
  split at h
  · exact List.dropLast_subset _ h
  · exact h

/-- **The tokens of joined lines stand where the tokens of the lines do.** -/
theorem atLines_of_mem_intercalate {first : String} {more : List String}
    (hlines : ∀ line ∈ first :: more, '\n' ∉ line.toList) {number : Nat} {t : Token}
    (ht : t ∈ scan ("\n".intercalate (first :: more)) number) :
    AtLines number (first :: more) t.position := by
  induction more generalizing first number with
  | nil =>
    rw [String.intercalate_singleton] at ht
    exact atLines_of_mem (hlines first List.mem_cons_self) ht []
  | cons next more ih =>
    obtain ⟨hfirst, hmore⟩ := List.forall_mem_cons.1 hlines
    rw [String.intercalate_cons_cons, scan_append_newline] at ht
    rcases List.mem_append.1 ht with ht | ht
    · exact atLines_of_mem hfirst (mem_of_mem_dropOpenEnd ht) _
    rcases List.mem_cons.1 ht with rfl | ht
    · exact atLines_behind hfirst number _
    split at ht
    · cases ht
    · rw [newlines_eq_zero_iff.2 hfirst, Nat.add_zero] at ht
      exact (ih hmore ht).cons first

end Token

end DarjaLang
