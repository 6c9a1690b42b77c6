import DarjaLang.Proofs.Machine.Fault
import DarjaLang.Proofs.Token.Lexed

/-!
# The scanner on a machine

A machine keeps a text as bytes.  It may be cut only where a character ends, and a cut anywhere else
is a fault.  The scanner cuts twice: the quotes are cut off a string literal, and the column of a
token is found by counting the characters between the start of its line and its first byte.

* `cut` is the instruction, and `cut_append` says when it does not fault.
* `stringAt` recognises a string literal and cuts off its quotes (`stringAt_eq`).
* `scan` is the scanner, which keeps the places of lines and tokens in bytes.  `scan_eq` says that
  it never faults.
-/

set_option autoImplicit false

namespace DarjaLang

namespace Machine

open Token

/-! ## Cutting texts -/

/-- The part of a text from one byte up to another. -/
def cut (s : String) (start stop : Nat) : Machine String :=
  if h : start ≤ stop ∧ String.Pos.Raw.IsValid s ⟨start⟩ ∧ String.Pos.Raw.IsValid s ⟨stop⟩ then
    .ok (s.extract (s.pos ⟨start⟩ h.2.1) (s.pos ⟨stop⟩ h.2.2))
  else .error .cut

/-- A part of a text can be cut out. -/
theorem cut_append (a b c : String) :
    cut (a ++ b ++ c) a.utf8ByteSize (a.utf8ByteSize + b.utf8ByteSize) = .ok b := by
  have hassoc : a ++ b ++ c = a ++ (b ++ c) := String.append_assoc
  have hend : (⟨a.utf8ByteSize + b.utf8ByteSize⟩ : String.Pos.Raw) = (a ++ b).rawEndPos :=
    String.Pos.Raw.ext String.utf8ByteSize_append.symm
  have hstart : String.Pos.Raw.IsValid (a ++ b ++ c) ⟨a.utf8ByteSize⟩ :=
    String.Pos.Raw.isValid_iff_exists_append.2 ⟨a, b ++ c, hassoc, rfl⟩
  have hstop : String.Pos.Raw.IsValid (a ++ b ++ c) ⟨a.utf8ByteSize + b.utf8ByteSize⟩ :=
    String.Pos.Raw.isValid_iff_exists_append.2 ⟨a ++ b, c, rfl, hend⟩
  have hbefore : (String.pos _ _ hstart).Splits a (b ++ c) := ⟨hassoc, rfl⟩
  have hbehind : (String.pos _ _ hstop).Splits (a ++ b) c := ⟨rfl, hend⟩
  obtain ⟨hle, hcopy⟩ := String.copy_slice_eq_iff_splits.2 ⟨a, c, hbefore, hbehind⟩
  rw [cut, dif_pos ⟨Nat.le_add_right _ _, hstart, hstop⟩, String.extract_eq_copy_slice _ _ hle,
    hcopy]

/-! ## String literals -/

/-- The text that a literal stands for; none if it has an unknown escape.  The literal is given
with its quotes. -/
def literalText? (literal : String) : Machine (Option (List Char)) :=
  if literal.utf8ByteSize = 0 then .error .cut
  else do
    let body ← cut literal 1 (literal.utf8ByteSize - 1)
    return unescape? body.toList

theorem literalText?_eq (body : List Char) :
    literalText? (String.ofList ('"' :: (body ++ ['"']))) = .ok (unescape? body) := by
  have hliteral : String.ofList ('"' :: (body ++ ['"'])) = "\"" ++ String.ofList body ++ "\"" := by
    rw [← String.toList_inj]
    simp
  have hsize : ("\"" ++ String.ofList body ++ "\"").utf8ByteSize =
      1 + (String.ofList body).utf8ByteSize + 1 := by
    rw [String.utf8ByteSize_append, String.utf8ByteSize_append]
    rfl
  have hcut := cut_append "\"" (String.ofList body) "\""
  rw [hliteral, literalText?, hsize, if_neg (by omega), Nat.add_sub_cancel]
  rw [show "\"".utf8ByteSize = 1 from rfl] at hcut
  rw [hcut]
  change Except.ok (unescape? (String.ofList body).toList) = _
  rw [String.toList_ofList]

example : literalText? "\"" = .error .cut := by cbv

/-- A string literal behind its opening quote. -/
def stringAt (rest : List Char) : Machine Piece :=
  match stringBody? rest with
  | none => .ok (.token (.error '"') rest.length)
  | some body => do
    let more := body.length + 1
    match ← literalText? (String.ofList ('"' :: rest.take more)) with
    | some text => return .token (.string (String.ofList text)) more
    | none => return .token (.error '"') more

/-- A literal that was recognised has both of its quotes, so cutting them off does not fault. -/
theorem stringAt_eq (rest : List Char) : stringAt rest = .ok (Token.stringAt rest) := by
  rw [stringAt, Token.stringAt]
  cases hbody : stringBody? rest with
  | none => rfl
  | some body =>
    obtain ⟨behind, rfl⟩ := append_of_stringBody? hbody
    have htake : (body ++ '"' :: behind).take (body.length + 1) = body ++ ['"'] := by
      rw [List.take_length_add_append]
      rfl
    dsimp only
    rw [htake, literalText?_eq]
    cases unescape? body <;> rfl

/-! ## Lines and texts -/

/-- The longest piece that starts with `c` on a line that goes on with `rest`. -/
def pieceAt (c : Char) (rest : List Char) : Machine Piece :=
  if isBlank c then .ok (.gap 0)
  else if startsComment c rest then .ok (.gap (rest.takeWhile (· != '\r')).length)
  else if c.isAlpha then .ok (wordAt c rest)
  else if c.isDigit then .ok (numberAt c rest)
  else if c == '"' then stringAt rest
  else .ok (symbolAt c rest)

theorem pieceAt_eq (c : Char) (rest : List Char) :
    pieceAt c rest = .ok (Token.pieceAt c rest) := by
  simp only [pieceAt, Token.pieceAt, stringAt_eq, apply_ite Except.ok]

/-- The column of the character at a byte of a line that starts at `lineStart`. -/
def columnAt (source : String) (lineStart here : Nat) : Machine Nat := do
  let before ← cut source (min lineStart here) here
  return before.length + 1

/-- The tokens of a line from some byte on, of which the first `skip` characters belong to a piece
that started earlier. -/
def scanFrom (source : String) (line lineStart : Nat) :
    (here skip : Nat) → List Char → Machine (List Token)
  | _, _, [] => .ok []
  | here, skip + 1, c :: rest => scanFrom source line lineStart (here + c.utf8Size) skip rest
  | here, 0, c :: rest => do
    match ← pieceAt c rest with
    | .gap more => scanFrom source line lineStart (here + c.utf8Size) more rest
    | .token kind more =>
      let column ← columnAt source lineStart here
      let behind ← scanFrom source line lineStart (here + c.utf8Size) more rest
      return ⟨kind, String.ofList (c :: rest.take more), ⟨line, column⟩⟩ :: behind

/-- The tokens of a text from a line on that starts at `lineStart` and has been read up to here;
`read` holds that part, last character first. -/
def scanLines (source : String) (line lineStart : Nat) (read : List Char) :
    List Char → Machine (List Token)
  | [] => do
    let front ← scanFrom source line lineStart lineStart 0 read.reverse
    let column ← columnAt source lineStart source.utf8ByteSize
    return front ++ [⟨.endOfLine, "", ⟨line, column⟩⟩]
  | '\n' :: rest => do
    let here := lineStart + (String.ofList read.reverse).utf8ByteSize
    let front ← scanFrom source line lineStart lineStart 0 read.reverse
    let column ← columnAt source lineStart here
    let behind ← (if rest.isEmpty then .ok []
      else scanLines source (line + 1) (here + 1) [] rest)
    return front ++ ⟨.endOfLine, "\n", ⟨line, column⟩⟩ :: behind
  | c :: rest => scanLines source line lineStart (c :: read) rest

/-- The tokens of a text whose first line has the given number. -/
def scan (text : String) (firstLine : Nat) : Machine (List Token) :=
  scanLines text firstLine 0 [] text.toList

variable {source before : String} {line : Nat} {read cs : List Char}

/-- The column of what comes behind `read` on a line. -/
theorem columnAt_eq {behind : String} (hsource : source = before ++ String.ofList read ++ behind) :
    columnAt source before.utf8ByteSize
      (before.utf8ByteSize + (String.ofList read).utf8ByteSize) = .ok (read.length + 1) := by
  rw [columnAt, Nat.min_eq_left (Nat.le_add_right _ _), hsource, cut_append]
  change Except.ok ((String.ofList read).length + 1) = _
  rw [String.length_ofList]

/-- The bytes of what has been read of a line and of one more character. -/
theorem utf8ByteSize_concat (read : List Char) (c : Char) :
    (String.ofList (read ++ [c])).utf8ByteSize =
      (String.ofList read).utf8ByteSize + c.utf8Size := by
  rw [String.ofList_append, String.utf8ByteSize_append, ← String.singleton_eq_ofList,
    String.utf8ByteSize_singleton]

/-- Behind what has been read of a line, the rest of it is scanned without a fault. -/
theorem scanFrom_eq {skip : Nat} {behind : String}
    (hsource : source = before ++ String.ofList read ++ (String.ofList cs ++ behind)) :
    scanFrom source line before.utf8ByteSize
        (before.utf8ByteSize + (String.ofList read).utf8ByteSize) skip cs =
      .ok (Token.scanFrom ⟨line, read.length + 1⟩ skip cs) := by
  induction cs generalizing read skip with
  | nil => rw [scanFrom, Token.scanFrom]
  | cons c cs ih =>
    have hread : source =
        before ++ String.ofList (read ++ [c]) ++ (String.ofList cs ++ behind) := by
      rw [hsource, ← String.toList_inj]
      simp
    have hrest : ∀ skip, scanFrom source line before.utf8ByteSize
        (before.utf8ByteSize + (String.ofList read).utf8ByteSize + c.utf8Size) skip cs =
          .ok (Token.scanFrom ⟨line, read.length + 1 + 1⟩ skip cs) := fun skip => by
      have h := @ih (read ++ [c]) skip hread
      rwa [utf8ByteSize_concat, List.length_append, ← Nat.add_assoc] at h
    cases skip with
    | succ skip => exact hrest skip
    | zero =>
      rw [scanFrom, Token.scanFrom, pieceAt_eq]
      cases Token.pieceAt c cs with
      | gap more => exact hrest more
      | token kind more =>
        change (columnAt _ _ _ >>= fun column => scanFrom _ _ _ _ _ _ >>= fun behind => _) = _
        rw [columnAt_eq hsource, hrest]
        rfl

theorem scanLine_eq {behind : String} (hsource : source = before ++ (String.ofList cs ++ behind)) :
    scanFrom source line before.utf8ByteSize before.utf8ByteSize 0 cs =
      .ok (Token.scanLine line cs) := by
  refine @scanFrom_eq source before line [] cs 0 behind ?_
  rw [hsource]
  exact congrArg (· ++ _) (String.append_empty).symm

/-- Behind what has been read of a line, the rest of a text is scanned without a fault. -/
theorem scanLines_eq (hsource : source = before ++ String.ofList (read.reverse ++ cs)) :
    scanLines source line before.utf8ByteSize read cs = .ok (Token.scanLines line read cs) := by
  induction cs generalizing line read before with
  | nil =>
    rw [List.append_nil] at hsource
    have hall : source = before ++ String.ofList read.reverse ++ "" := by
      rw [hsource, String.append_empty]
    have hend : source.utf8ByteSize =
        before.utf8ByteSize + (String.ofList read.reverse).utf8ByteSize := by
      rw [hsource, String.utf8ByteSize_append]
    rw [scanLines, scanLine_eq (String.append_assoc ▸ hall), hend, columnAt_eq hall]
    rfl
  | cons c rest ih =>
    by_cases hc : c = '\n'
    · subst hc
      have hline : source =
          before ++ String.ofList read.reverse ++ String.ofList ('\n' :: rest) := by
        rw [hsource, String.ofList_append, String.append_assoc]
      have hnext : source =
          before ++ String.ofList read.reverse ++ "\n" ++ String.ofList ([].reverse ++ rest) := by
        rw [hline, ← String.toList_inj]
        simp
      have hsize : (before ++ String.ofList read.reverse ++ "\n").utf8ByteSize =
          before.utf8ByteSize + (String.ofList read.reverse).utf8ByteSize + 1 := by
        rw [String.utf8ByteSize_append, String.utf8ByteSize_append]
        rfl
      have hrest := @ih _ (line + 1) [] hnext
      rw [hsize] at hrest
      rw [scanLines, scanLine_eq (String.append_assoc ▸ hline), columnAt_eq hline, hrest,
        Token.scanLines]
      cases rest <;> rfl
    · have hread : source = before ++ String.ofList ((c :: read).reverse ++ rest) := by
        rw [hsource, List.reverse_cons, List.append_assoc]
        rfl
      rw [scanLines.eq_3 _ _ _ _ _ _ hc, Token.scanLines.eq_3 _ _ _ _ hc]
      exact ih hread

/-- **The scanner never faults.** -/
theorem scan_eq (text : String) (line : Nat) : scan text line = .ok (Token.scan text line) := by
  have h : text = "" ++ String.ofList ([].reverse ++ text.toList) := by
    rw [String.empty_append]
    exact String.ofList_toList.symm
  exact scanLines_eq h

end Machine

end DarjaLang
