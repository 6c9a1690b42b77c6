import DarjaLang.Proofs.Token.Layout

/-!
# Tokens that are written out

The rules take as much as they can, so tokens that are written one behind the other may be read as
something else.  With a space between them they are not: no token but a string literal has a space
in it, and a literal ends where its quote says.

* `Token.Rule.longest`: what matches a rule is taken as a whole in front of a space.
* `Token.kind_eq_of_lexeme_eq`: in any two texts, tokens with the same lexeme are of the same kind.
* `Token.ReadsAs` says which tokens the rules find in a text, wherever it stands.  Putting a token
  and a space in front of a text puts the token in front of the others (`ReadsAs.cons`).
* `Token.written_out_reads_again` is the result for the tokens of a text.
-/

set_option autoImplicit false

namespace DarjaLang

namespace Token

/-! ## In front of a space -/

/-- The text ends here, or goes on with a space. -/
def AtSpace (cs : List Char) : Prop := cs = [] ∨ ∃ behind, cs = ' ' :: behind

section Space

variable {rest : List Char}

theorem takeWhile_atSpace (hrest : AtSpace rest) {f : Char → Bool} (hf : f ' ' = false)
    {p : List Char} (hp : ∀ c ∈ p, f c) : (p ++ rest).takeWhile f = p := by
  rcases hrest with rfl | ⟨behind, rfl⟩
  · simpa using hp
  · exact takeWhile_append_stop hp hf behind

theorem dropWhile_atSpace (hrest : AtSpace rest) {f : Char → Bool} (hf : f ' ' = false)
    {p : List Char} (hp : ∀ c ∈ p, f c) : (p ++ rest).dropWhile f = rest := by
  rcases hrest with rfl | ⟨behind, rfl⟩
  · simpa using hp
  · exact dropWhile_append_stop hp hf behind

theorem AtSpace.eq_space (hrest : AtSpace rest) {d : Char} {q : List Char} (h : d :: q <+: rest) :
    d = ' ' := by
  rcases hrest with rfl | ⟨behind, rfl⟩
  · simp at h
  · exact (List.cons_prefix_cons.1 h).1

/-- A symbol in front of a space is neither the beginning of another one nor of a comment. -/
theorem longest_symbol_atSpace (hrest : AtSpace rest) {kind : Kind} {text : String}
    (h : kind.spelling? = some text) : Longest (some kind) text.toList rest := by
  obtain ⟨c, p, htext, hmark, -⟩ := exists_toList_of_spelling? h
  have hrule := Rule.symbol h
  rw [htext] at hrule ⊢
  refine .of_fits hrule fun kind' q hq hfront => ?_
  rw [Fits, hmark] at hq
  rcases hq with ⟨body, rfl, rfl, -, -⟩ | ⟨symbol, text', -, hsymbol, htext'⟩
  · rcases p with _ | ⟨d, p⟩
    · exact absurd (hrest.eq_space hfront) (by decide)
    · obtain ⟨rfl, -⟩ := List.cons_prefix_cons.1 hfront
      exact absurd htext (spelling?_ne_slashes h p)
  · have hlength := length_le_one_of_spelling? hsymbol htext'
    rcases q with _ | ⟨d, q⟩
    · exact Nat.zero_le _
    · rcases p with _ | ⟨e, p⟩
      · obtain rfl := hrest.eq_space hfront
        exact absurd (start_of_mem_spelling? hsymbol (c := ' ') (by simp [htext'])) (by decide)
      · exact hlength.trans (by simp)

/-- **What matches a rule is taken whole if a space stands behind it.** -/
theorem Rule.longest {kind : Kind} {p : List Char} (h : Rule (some kind) p)
    (hrest : AtSpace rest) : Longest (some kind) p rest := by
  cases h with
  | newline => exact longest_newline rest
  | @word c p hc hp =>
    have h := longest_word hc (p ++ rest)
    rwa [takeWhile_atSpace hrest rfl hp, dropWhile_atSpace hrest rfl hp] at h
  | @integer q hne hall =>
    obtain ⟨c, p, rfl⟩ := List.exists_cons_of_ne_nil hne
    obtain ⟨hc, hp⟩ := List.forall_mem_cons.1 hall
    have hdrop := dropWhile_atSpace hrest rfl hp
    have hpoint : ∀ behind, (p ++ rest).dropWhile Char.isDigit = '.' :: behind →
        behind.takeWhile Char.isDigit = [] := fun behind hbehind => by
      rw [hdrop] at hbehind
      rcases hrest with rfl | ⟨_, rfl⟩ <;> cases hbehind
    have h := longest_integer hc hpoint
    rwa [takeWhile_atSpace hrest rfl hp, hdrop] at h
  | @float whole part hwhole hpart hall hdigits =>
    obtain ⟨c, whole, rfl⟩ := List.exists_cons_of_ne_nil hwhole
    obtain ⟨hc, hall⟩ := List.forall_mem_cons.1 hall
    have hpoint : Char.isDigit '.' = false := rfl
    have hbehind := dropWhile_append_stop hall hpoint (part ++ rest)
    have htake := takeWhile_atSpace hrest rfl hdigits
    have h := longest_float hc hbehind (by rwa [htake])
    rwa [takeWhile_append_stop hall hpoint, htake, dropWhile_atSpace hrest rfl hdigits] at h
  | literal hbody => exact longest_literal hbody rest
  | symbol hkind => exact longest_symbol_atSpace hrest hkind

end Space

/-! ## The kind of a lexeme -/

/-- What is taken is of the same kind wherever it is taken. -/
theorem Taken.kind_unique {kind kind' : Option Kind} {p rest rest' : List Char}
    (h : Taken kind p rest) (h' : Taken kind' p rest') : kind = kind' := by
  -- an error is only taken where nothing matches, and then the same lexeme never matches
  cases h with
  | rule h =>
    cases h' with
    | rule h' => exact h.rule.unique h'.rule
    | stray _ hnone => exact absurd (List.prefix_append [_] _) (hnone _ _ h.rule)
    | unclosed hnone => exact absurd (List.prefix_append _ _) (hnone _ _ h.rule)
  | stray hc hnone =>
    cases h' with
    | rule h' => exact absurd (List.prefix_append [_] _) (hnone _ _ h'.rule)
    | stray => rfl
    | unclosed => exact absurd rfl hc
  | unclosed hnone =>
    cases h' with
    | rule h' => exact absurd (List.prefix_append _ _) (hnone _ _ h'.rule)
    | stray hc => exact absurd rfl hc
    | unclosed => rfl

theorem Lexed.exists_taken {place : Position} {cs : List Char} {ts : List Token}
    (h : Lexed place cs ts) {t : Token} (ht : t ∈ ts) :
    ∃ rest, Taken (some t.kind) t.lexeme.toList rest := by
  induction h with
  | done => cases ht
  | gap _ _ ih => exact ih ht
  | @token place kind p rest ts hp _ ih =>
    rcases List.mem_cons.1 ht with rfl | ht
    · exact ⟨rest, by simpa using hp⟩
    · exact ih ht

/-- A token that is no error is what one of the rules matches. -/
theorem Taken.rule_of_ne_error {kind : Kind} {p rest : List Char} (h : Taken (some kind) p rest)
    (hkind : ∀ c, kind ≠ .error c) : Rule (some kind) p := by
  cases h with
  | rule h => exact h.rule
  | stray => exact absurd rfl (hkind _)
  | unclosed => exact absurd rfl (hkind _)

/-- A token of a text is taken from it, or it is the end that a text without a final newline has. -/
theorem exists_taken_of_mem_scan {text : String} {line : Nat} {t : Token}
    (ht : t ∈ scan text line) :
    (∃ rest, Taken (some t.kind) t.lexeme.toList rest) ∨ t.lexeme = "" ∧ t.kind = .endOfLine := by
  obtain ⟨ts, ends, hscan, hlexed, -, hends⟩ := exists_lexed text line
  rw [hscan] at ht
  rcases List.mem_append.1 ht with ht | ht
  · exact .inl (hlexed.exists_taken ht)
  · rw [hends t ht]
    exact .inr ⟨rfl, rfl⟩

/-- **The lexeme of a token determines its kind**, in any two texts. -/
theorem kind_eq_of_lexeme_eq {text text' : String} {line line' : Nat} {t t' : Token}
    (ht : t ∈ scan text line) (ht' : t' ∈ scan text' line') (h : t.lexeme = t'.lexeme) :
    t.kind = t'.kind := by
  rcases exists_taken_of_mem_scan ht with ⟨rest, htaken⟩ | ⟨hempty, hkind⟩ <;>
    rcases exists_taken_of_mem_scan ht' with ⟨rest', htaken'⟩ | ⟨hempty', hkind'⟩
  · rw [h] at htaken
    exact Option.some.inj (htaken.kind_unique htaken')
  · exact absurd (by simp [h, hempty']) htaken.ne_nil
  · exact absurd (by simp [← h, hempty]) htaken'.ne_nil
  · rw [hkind, hkind']

/-! ## Tokens with spaces between them -/

/-- What a token is, without its place. -/
def withoutPlace (t : Token) : Kind × String := (t.kind, t.lexeme)

/-- The rules find these tokens, and the text does not start with a blank. -/
structure ReadsAs (cs : List Char) (ws : List (Kind × String)) : Prop where
  lexed : ∀ place, ∃ ts, Lexed place cs ts ∧ ts.map withoutPlace = ws
  front : ∀ c rest, cs = c :: rest → isBlank c = false

theorem Rule.isBlank_eq_false {kind : Kind} {c : Char} {p : List Char}
    (h : Rule (some kind) (c :: p)) : isBlank c = false := by
  refine Bool.eq_false_iff.2 fun hblank => ?_
  have hfits := h.fits_cons
  rw [Fits, start_of_isBlank hblank] at hfits
  cases hfits.2

theorem readsAs_nil : ReadsAs [] [] := ⟨fun _ => ⟨[], .done, rfl⟩, nofun⟩

theorem readsAs_newline : ReadsAs ['\n'] [(.endOfLine, "\n")] := by
  refine ⟨fun place => ⟨_, .token (.rule (longest_newline [])) .done, rfl⟩, ?_⟩
  rintro _ _ ⟨rfl⟩
  rfl

theorem ReadsAs.cons {kind : Kind} {p rest : List Char} {ws : List (Kind × String)}
    (h : ReadsAs rest ws) (hp : Rule (some kind) p) :
    ReadsAs (p ++ [' '] ++ rest) ((kind, String.ofList p) :: ws) := by
  have hspace : Longest none [' '] rest := by
    have hblanks := longest_blanks (c := ' ') rfl rest
    rcases rest with _ | ⟨c, rest⟩
    · exact hblanks
    · have hc := h.front c rest rfl
      simpa [hc] using hblanks
  rw [List.append_assoc]
  refine ⟨fun place => ?_, fun c cs hcs => ?_⟩
  · obtain ⟨ts, hts, rfl⟩ := h.lexed ((place.after p).after [' '])
    exact ⟨_, .token (.rule (hp.longest (.inr ⟨rest, rfl⟩))) (.gap (.rule hspace) hts), rfl⟩
  · obtain ⟨d, q, rfl⟩ := List.exists_cons_of_ne_nil hp.ne_nil
    obtain ⟨rfl, -⟩ := List.cons.inj hcs
    exact hp.isBlank_eq_false

theorem ReadsAs.append {ts : List Token} {rest : List Char} {ws : List (Kind × String)}
    (h : ReadsAs rest ws) (hts : ∀ t ∈ ts, Rule (some t.kind) t.lexeme.toList) :
    ReadsAs (ts.flatMap (·.lexeme.toList ++ [' ']) ++ rest) (ts.map withoutPlace ++ ws) := by
  induction ts with
  | nil => exact h
  | cons t ts ih =>
    rw [List.forall_mem_cons] at hts
    have hcons := (ih hts.2).cons hts.1
    rw [String.ofList_toList] at hcons
    rwa [List.flatMap_cons, List.append_assoc]

/-- What is written with spaces between is written with spaces behind, but for the last. -/
theorem intercalate_space_concat (before : List (List Char)) (last : List Char) :
    [' '].intercalate (before ++ [last]) = before.flatMap (· ++ [' ']) ++ last := by
  induction before with
  | nil => simp
  | cons p before ih =>
    rw [List.cons_append, List.intercalate_cons_of_ne_nil (by simp), ih]
    simp

/-- Behind the last of them there is a space, and no newline. -/
theorem getLast?_spaces_ne_newline (ps : List (List Char)) :
    (ps.flatMap (· ++ [' '])).getLast? ≠ some '\n' := by
  rcases ps.eq_nil_or_concat with rfl | ⟨qs, q, rfl⟩
  · simp
  · simp

/-- The tokens of a text that reads as these, with the end that is given to an open line. -/
theorem ReadsAs.map_scan {text : String} {ws : List (Kind × String)} (h : ReadsAs text.toList ws)
    (line : Nat) :
    (scan text line).map withoutPlace =
      ws ++ if text.toList.getLast? = some '\n' then [] else [(.endOfLine, "")] := by
  obtain ⟨ts, hts, rfl⟩ := h.lexed ⟨line, 1⟩
  rw [hts.scan_eq, List.map_append]
  split <;> rfl

/-- The last token ends a line, with or without a newline, and all others are taken. -/
theorem exists_scan_concat (text : String) (line : Nat) :
    ∃ before stop, scan text line = before ++ [stop] ∧ stop.kind = .endOfLine ∧
      (stop.lexeme = "" ∨ stop.lexeme = "\n") ∧
      ∀ t ∈ before, ∃ rest, Taken (some t.kind) t.lexeme.toList rest := by
  obtain ⟨before, stop, hscan, hstop⟩ := exists_scan_eq_concat text line
  obtain ⟨ts, ends, hts, hlexed, hlength, hends⟩ := exists_lexed text line
  refine ⟨before, stop, hscan, hstop, ?_⟩
  rw [hscan] at hts
  rcases ends with _ | ⟨last, _ | ⟨_, _⟩⟩
  · rw [List.append_nil] at hts
    subst hts
    obtain ⟨rest, htaken⟩ :=
      hlexed.exists_taken (List.mem_append_right before (List.mem_singleton_self stop))
    rw [hstop] at htaken
    have hnewline := (htaken.rule_of_ne_error nofun).eq_of_endOfLine
    exact ⟨.inr (String.toList_inj.1 hnewline),
      fun t ht => hlexed.exists_taken (List.mem_append_left _ ht)⟩
  · obtain ⟨rfl, hlast⟩ := List.append_inj' hts rfl
    obtain rfl := (List.cons.inj hlast).1
    rw [hends stop (List.mem_singleton_self _)]
    exact ⟨.inl rfl, fun t ht => hlexed.exists_taken ht⟩
  · split at hlength <;> simp at hlength

/-- **Tokens that are written out with single spaces between them are read again.**  A text without
error tokens and the text that its lexemes make up have the same tokens, each with its kind and its
lexeme.  And in whichever two texts a lexeme is found, its kind is the same. -/
theorem written_out_reads_again (text : String) (line line' : Nat) :
    ((∀ t ∈ scan text line, ∀ c, t.kind ≠ .error c) →
      (scan (" ".intercalate ((scan text line).map lexeme)) line').map withoutPlace =
        (scan text line).map withoutPlace) ∧
    ∀ (text' : String), ∀ t ∈ scan text line, ∀ t' ∈ scan text' line',
      t.lexeme = t'.lexeme → t.kind = t'.kind := by
  refine ⟨fun herror => ?_, fun text' t ht t' ht' => kind_eq_of_lexeme_eq ht ht'⟩
  obtain ⟨before, stop, hscan, hstop, hlexeme, htaken⟩ := exists_scan_concat text line
  rw [hscan] at herror ⊢
  have hbefore : ∀ t ∈ before, Rule (some t.kind) t.lexeme.toList := fun t ht => by
    obtain ⟨rest, htaken⟩ := htaken t ht
    exact htaken.rule_of_ne_error (herror t (List.mem_append_left _ ht))
  have hjoined : (" ".intercalate ((before ++ [stop]).map lexeme)).toList =
      before.flatMap (·.lexeme.toList ++ [' ']) ++ stop.lexeme.toList := by
    rw [String.toList_intercalate]
    simpa [List.flatMap_map, Function.comp_def] using
      intercalate_space_concat (before.map (·.lexeme.toList)) stop.lexeme.toList
  have hwhole : (before ++ [stop]).map withoutPlace =
      before.map withoutPlace ++ [(.endOfLine, stop.lexeme)] := by
    simp [withoutPlace, hstop]
  rw [hwhole]
  rcases hlexeme with hempty | hnewline
  · have hreads := readsAs_nil.append hbefore
    rw [hempty, String.toList_empty] at hjoined
    -- the text that is written out ends with a space, and so its last line is open as well
    rw [← hjoined] at hreads
    have hopen := getLast?_spaces_ne_newline (before.map (·.lexeme.toList))
    rw [List.flatMap_map] at hopen
    rw [hreads.map_scan, hjoined, List.append_nil, List.append_nil, if_neg hopen, hempty]
  · have hreads := readsAs_newline.append hbefore
    have hchar : "\n".toList = ['\n'] := rfl
    rw [hnewline, hchar] at hjoined
    rw [← hjoined] at hreads
    rw [hreads.map_scan, hjoined, if_pos (by simp), List.append_nil, hnewline]

/-- A pair of marks that belong together, two that do not, and slashes in a literal and in front of
a comment. -/
theorem written_out_reads_again_marks :
    (scan "x<=1.5! =\"//\"// x\n" 3).map lexeme =
        ["x", "<=", "1.5", "!", "=", "\"//\"", "\n"] ∧
      (scan "x <= 1.5 ! = \"//\" \n" 1).map withoutPlace =
        (scan "x<=1.5! =\"//\"// x\n" 3).map withoutPlace := by
  have hscan : (scan "x<=1.5! =\"//\"// x\n" 3).map lexeme =
      ["x", "<=", "1.5", "!", "=", "\"//\"", "\n"] := by rfl
  obtain ⟨hagain, -⟩ := written_out_reads_again "x<=1.5! =\"//\"// x\n" 3 1
  rw [hscan] at hagain
  have hvalid : ∀ t ∈ scan "x<=1.5! =\"//\"// x\n" 3, t.kind.category ≠ .invalid := by decide
  refine ⟨hscan, hagain fun t ht c hkind => hvalid t ht ?_⟩
  rw [hkind]
  rfl

end Token

end DarjaLang
