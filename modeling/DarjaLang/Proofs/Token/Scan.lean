import DarjaLang.Token.Lexer

/-!
# What a scan consists of

* Inside a line there is no token that ends it, and every token stands on that line
  (`mem_scanFrom`).
* A text ends with the end of its last line (`exists_scan_eq_concat`), and the explicit end of the
  input is never among its tokens (`kind_ne_endOfInput_of_mem_scan`).
* A text without newlines is one line (`scan_of_no_newline`).
-/

set_option autoImplicit false

namespace DarjaLang

namespace Token

/-! ## Pieces -/

theorem wordKind_isTerminator (word : String) : (wordKind word).isTerminator = false := by
  rw [wordKind.eq_def]
  split <;> rfl

/-- Numbers, literals, symbols and errors: the kinds that are neither words nor ends. -/
def Kind.isPlain : Kind → Bool
  | .identifier _ | .keyword _ | .boolean _ | .endOfLine | .endOfInput => false
  | _ => true

theorem Kind.isTerminator_of_isPlain {kind : Kind} (h : kind.isPlain = true) :
    kind.isTerminator = false := by
  cases kind <;> first | rfl | cases h

theorem exists_numberAt (c : Char) (rest : List Char) :
    ∃ kind more, numberAt c rest = .token kind more ∧ kind.isPlain = true := by
  rw [numberAt]
  dsimp only
  split
  · split <;> exact ⟨_, _, rfl, rfl⟩
  · exact ⟨_, _, rfl, rfl⟩

theorem exists_stringAt (rest : List Char) :
    ∃ kind more, stringAt rest = .token kind more ∧ kind.isPlain = true := by
  rw [stringAt]
  split
  · exact ⟨_, _, rfl, rfl⟩
  · split <;> exact ⟨_, _, rfl, rfl⟩

theorem exists_symbolAt (c : Char) (rest : List Char) :
    ∃ kind more, symbolAt c rest = .token kind more ∧ kind.isPlain = true := by
  rw [symbolAt.eq_def]
  split <;> exact ⟨_, _, rfl, rfl⟩

/-- A piece of a line is a blank, a comment, a word or a token of a plain kind. -/
theorem pieceAt_cases (c : Char) (rest : List Char) :
    isBlank c = true ∧ pieceAt c rest = .gap 0 ∨
      startsComment c rest = true ∧ pieceAt c rest = .gap (rest.takeWhile (· != '\r')).length ∨
      pieceAt c rest = wordAt c rest ∨
      ∃ kind more, pieceAt c rest = .token kind more ∧ kind.isPlain = true := by
  rw [pieceAt]
  split
  · exact .inl ⟨‹_›, rfl⟩
  split
  · exact .inr (.inl ⟨‹_›, rfl⟩)
  split
  · exact .inr (.inr (.inl rfl))
  refine .inr (.inr (.inr ?_))
  split
  · exact exists_numberAt c rest
  split
  · exact exists_stringAt rest
  · exact exists_symbolAt c rest

/-- No piece of a line ends it. -/
theorem pieceAt_isTerminator {c : Char} {rest : List Char} {kind : Kind} {more : Nat}
    (h : pieceAt c rest = .token kind more) : kind.isTerminator = false := by
  obtain ⟨-, hpiece⟩ | ⟨-, hpiece⟩ | hpiece | ⟨kind', more', hpiece, hplain⟩ :=
    pieceAt_cases c rest
  all_goals
    rw [hpiece] at h
    cases h
  · exact wordKind_isTerminator _
  · exact Kind.isTerminator_of_isPlain hplain

/-! ## Lines -/

/-- The tokens of a line stand on it and do not end it. -/
theorem mem_scanFrom {place : Position} {skip : Nat} {cs : List Char} {t : Token}
    (ht : t ∈ scanFrom place skip cs) :
    t.position.line = place.line ∧ t.kind.isTerminator = false := by
  induction cs generalizing place skip with
  | nil => simp [scanFrom] at ht
  | cons c cs ih =>
    cases skip with
    | succ skip => exact @ih ⟨place.line, place.column + 1⟩ _ ht
    | zero =>
      rw [scanFrom] at ht
      split at ht
      · exact @ih ⟨place.line, place.column + 1⟩ _ ht
      · next hpiece =>
        rcases List.mem_cons.1 ht with rfl | ht
        · exact ⟨rfl, pieceAt_isTerminator hpiece⟩
        · exact @ih ⟨place.line, place.column + 1⟩ _ ht

theorem mem_scanLine {line : Nat} {cs : List Char} {t : Token} (ht : t ∈ scanLine line cs) :
    t.position.line = line ∧ t.kind.isTerminator = false :=
  mem_scanFrom ht

theorem kind_ne_of_isTerminator {t : Token} (h : t.kind.isTerminator = false) :
    t.kind ≠ .endOfInput := by
  intro hk
  rw [hk] at h
  cases h

/-! ## Texts -/

/-- A text ends with the end of its last line. -/
theorem exists_scanLines_eq_concat (line : Nat) (read cs : List Char) :
    ∃ before stop, scanLines line read cs = before ++ [stop] ∧ stop.kind = .endOfLine := by
  fun_induction scanLines line read cs with
  | case1 line read => exact ⟨_, _, rfl, rfl⟩
  | case2 line read rest read' ih =>
    split
    · exact ⟨_, _, rfl, rfl⟩
    · obtain ⟨before, stop, hrest, hstop⟩ := ih
      exact ⟨scanLine line read' ++ lineEnd line read' "\n" :: before, stop,
        by rw [hrest, List.append_assoc, List.cons_append], hstop⟩
  | case3 line read c rest _ ih => exact ih

theorem exists_scan_eq_concat (text : String) (line : Nat) :
    ∃ before stop, scan text line = before ++ [stop] ∧ stop.kind = .endOfLine :=
  exists_scanLines_eq_concat line [] text.toList

theorem kind_ne_endOfInput_of_mem_scanLines {line : Nat} {read cs : List Char} {t : Token}
    (ht : t ∈ scanLines line read cs) : t.kind ≠ .endOfInput := by
  fun_induction scanLines line read cs with
  | case1 line read =>
    rcases List.mem_append.1 ht with ht | ht
    · exact kind_ne_of_isTerminator (mem_scanLine ht).2
    · rw [List.mem_singleton.1 ht]
      nofun
  | case2 line read rest read' ih =>
    rcases List.mem_append.1 ht with ht | ht
    · exact kind_ne_of_isTerminator (mem_scanLine ht).2
    rcases List.mem_cons.1 ht with rfl | ht
    · nofun
    split at ht
    · cases ht
    · exact ih ht
  | case3 line read c rest _ ih => exact ih ht

theorem kind_ne_endOfInput_of_mem_scan {text : String} {line : Nat} {t : Token}
    (ht : t ∈ scan text line) : t.kind ≠ .endOfInput :=
  kind_ne_endOfInput_of_mem_scanLines ht

/-- A text without newlines is one line. -/
theorem scanLines_of_no_newline {line : Nat} {read cs : List Char} (h : '\n' ∉ cs) :
    scanLines line read cs =
      scanLine line (read.reverse ++ cs) ++ [lineEnd line (read.reverse ++ cs) ""] := by
  induction cs generalizing read with
  | nil => rw [scanLines, List.append_nil]
  | cons c cs ih =>
    rw [List.mem_cons, not_or] at h
    rw [scanLines, ih h.2, List.reverse_cons, List.append_assoc, List.singleton_append]
    exact fun hc => h.1 hc.symm

theorem scan_of_no_newline {text : String} (h : '\n' ∉ text.toList) (line : Nat) :
    scan text line = scanLine line text.toList ++ [lineEnd line text.toList ""] :=
  scanLines_of_no_newline h

/-- The tokens of a text without newlines all stand on its line. -/
theorem line_of_mem_scan {text : String} (h : '\n' ∉ text.toList) {line : Nat} {t : Token}
    (ht : t ∈ scan text line) : t.position.line = line := by
  rw [scan_of_no_newline h] at ht
  rcases List.mem_append.1 ht with ht | ht
  · exact (mem_scanLine ht).1
  · rw [List.mem_singleton.1 ht]
    rfl

end Token

end DarjaLang
