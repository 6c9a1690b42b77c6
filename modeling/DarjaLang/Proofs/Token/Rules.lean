import DarjaLang.Proofs.Token.Lines

/-!
# The lexical rules

The tokens of a text, described by rules that look at the whole text: at every place the rule that
matches most is taken, and the next token starts behind what it matched.  Lines play no role in
this description; a newline is a character like any other.

* `Token.Rule` lists the rules, `Token.Taken` says what is taken from a text, and `Token.Lexed`
  follows a text from its beginning to its end.
* `Rule.fits`: the first character leaves open at most one rule, up to a choice between an integer
  and a float and between a comment and a slash.
* `Taken.unique`, `Lexed.unique`: the rules leave no choice.
-/

set_option autoImplicit false

namespace DarjaLang

namespace Token

/-! ## The rules -/

/-- How an operator or a delimiter is written. -/
def Kind.spelling? : Kind → Option String
  | .operator op => some op.symbol
  | .bang => some UnaryOperator.not.symbol
  | .assign => some "="
  | .leftParen => some "("
  | .rightParen => some ")"
  | .leftBrace => some "\x7b"
  | .rightBrace => some "\x7d"
  | .comma => some ","
  | _ => none

/-- What stands between the quotes of a literal: a backslash takes the character behind it along,
and any other character but a quote stands for itself. -/
inductive IsBody : List Char → Prop
  | nil : IsBody []
  | plain {c : Char} {cs : List Char} :
      c ≠ '"' → c ≠ '\\' → c ≠ '\n' → IsBody cs → IsBody (c :: cs)
  | escaped {c : Char} {cs : List Char} : c ≠ '\n' → IsBody cs → IsBody ('\\' :: c :: cs)

/-- What a closed literal is: the string it stands for, or an error if it has an unknown escape. -/
def literalKind (body : List Char) : Kind :=
  match unescape? body with
  | some text => .string (String.ofList text)
  | none => .error '"'

/-- A text that matches a rule as a whole, and what it then is; blanks and comments are nothing. -/
inductive Rule : Option Kind → List Char → Prop
  | newline : Rule (some .endOfLine) ['\n']
  | blanks {p : List Char} : p ≠ [] → (∀ c ∈ p, isBlank c) → Rule none p
  | comment {p : List Char} :
      (∀ c ∈ p, c ≠ '\n' ∧ c ≠ '\r') → Rule none ('/' :: '/' :: p)
  | word {c : Char} {p : List Char} : c.isAlpha → (∀ d ∈ p, isWordChar d) →
      Rule (some (wordKind (String.ofList (c :: p)))) (c :: p)
  | integer {p : List Char} : p ≠ [] → (∀ c ∈ p, c.isDigit) →
      Rule (some (.integer (String.ofList p))) p
  | float {whole part : List Char} : whole ≠ [] → part ≠ [] → (∀ c ∈ whole, c.isDigit) →
      (∀ c ∈ part, c.isDigit) →
      Rule (some (.float (Binary64.ofDigits whole part))) (whole ++ '.' :: part)
  | literal {body : List Char} : IsBody body →
      Rule (some (literalKind body)) ('"' :: body ++ ['"'])
  | symbol {kind : Kind} {text : String} : kind.spelling? = some text →
      Rule (some kind) text.toList

/-- `p` matches a rule, and no rule matches more at the beginning of `p ++ rest`. -/
structure Longest (kind : Option Kind) (p rest : List Char) : Prop where
  rule : Rule kind p
  longest : ∀ kind' p', Rule kind' p' → p' <+: p ++ rest → p'.length ≤ p.length

/-- No rule matches at the beginning. -/
def Unmatched (cs : List Char) : Prop := ∀ kind p, Rule kind p → ¬p <+: cs

/-- The text ends here, or the line does. -/
def AtLineEnd (cs : List Char) : Prop := cs = [] ∨ ∃ behind, cs = '\n' :: behind

/-- What is taken from the beginning of a text: the longest match; if there is none, a single
character, or from a quote on the rest of its line. -/
inductive Taken : Option Kind → List Char → List Char → Prop
  | rule {kind : Option Kind} {p rest : List Char} : Longest kind p rest → Taken kind p rest
  | stray {c : Char} {rest : List Char} :
      c ≠ '"' → Unmatched (c :: rest) → Taken (some (.error c)) [c] rest
  | unclosed {p rest : List Char} : Unmatched ('"' :: p ++ rest) → '\n' ∉ p → AtLineEnd rest →
      Taken (some (.error '"')) ('"' :: p) rest

/-- The tokens of a text that starts at a place, one piece after the other. -/
inductive Lexed : Position → List Char → List Token → Prop
  | done {place : Position} : Lexed place [] []
  | gap {place : Position} {p rest : List Char} {ts : List Token} :
      Taken none p rest → Lexed (place.after p) rest ts → Lexed place (p ++ rest) ts
  | token {place : Position} {kind : Kind} {p rest : List Char} {ts : List Token} :
      Taken (some kind) p rest → Lexed (place.after p) rest ts →
      Lexed place (p ++ rest) (⟨kind, String.ofList p, place⟩ :: ts)

/-! ## How pieces start -/

/-- The characters, by what may start with them. -/
inductive Start
  | newline
  | blank
  | letter
  | digit
  | quote
  | mark
  deriving DecidableEq

/-- What may start with a character. -/
def start (c : Char) : Start :=
  if c = '\n' then .newline
  else if isBlank c then .blank
  else if c.isAlpha then .letter
  else if c.isDigit then .digit
  else if c = '"' then .quote
  else .mark

theorem isBlank_iff {c : Char} :
    isBlank c = true ↔ c = ' ' ∨ c = '\t' ∨ c = '\r' ∨ c = '\x0c' := by
  simp [isBlank, or_assoc]

theorem isAlpha_eq_false_of_isDigit {c : Char} (h : c.isDigit = true) : c.isAlpha = false := by
  have hdigit : c.val.toNat ≤ 57 := (Char.isDigit_iff_toNat.1 h).2
  -- Capital and small letters are two ranges, and both start behind the digits.
  have hbehind : ∀ first : UInt32, 57 < first.toNat → ¬first ≤ c.val := fun first hfirst hle => by
    have hle := UInt32.le_iff_toNat_le.1 hle
    omega
  have hupper : c.isUpper = false := decide_eq_false fun h => hbehind 'A'.val (by decide) h.1
  have hlower : c.isLower = false :=
    Bool.and_eq_false_iff.2 (.inl (decide_eq_false (hbehind 'a'.val (by decide))))
  exact Bool.or_eq_false_iff.2 ⟨hupper, hlower⟩

theorem start_of_isBlank {c : Char} (h : isBlank c = true) : start c = .blank := by
  rcases isBlank_iff.1 h with rfl | rfl | rfl | rfl <;> rfl

theorem isBlank_eq_false_of_isAlphanum {c : Char} (h : c.isAlphanum = true) :
    isBlank c = false := by
  refine Bool.eq_false_iff.2 fun hblank => ?_
  rcases isBlank_iff.1 hblank with rfl | rfl | rfl | rfl <;> exact absurd h (by decide)

theorem ne_newline_of_isAlphanum {c : Char} (h : c.isAlphanum = true) : c ≠ '\n' := by
  rintro rfl
  exact absurd h (by decide)

theorem start_of_isAlpha {c : Char} (h : c.isAlpha = true) : start c = .letter := by
  have halnum : c.isAlphanum = true := by rw [Char.isAlphanum, h, Bool.true_or]
  rw [start, if_neg (ne_newline_of_isAlphanum halnum), isBlank_eq_false_of_isAlphanum halnum, h]
  rfl

theorem start_of_isDigit {c : Char} (h : c.isDigit = true) : start c = .digit := by
  have halnum : c.isAlphanum = true := by rw [Char.isAlphanum, h, Bool.or_true]
  rw [start, if_neg (ne_newline_of_isAlphanum halnum), isBlank_eq_false_of_isAlphanum halnum, h,
    isAlpha_eq_false_of_isDigit h]
  rfl

/-- The marks and how far they go: a symbol is written with one or two characters. -/
theorem exists_toList_of_spelling? {kind : Kind} {text : String} (h : kind.spelling? = some text) :
    ∃ c p, text.toList = c :: p ∧ start c = .mark ∧ symbolAt c p = .token kind p.length ∧
      (p = [] ∨ ∃ d, p = [d] ∧ ∀ rest, symbolAt c (d :: rest) = .token kind 1) := by
  cases kind with
  | operator op =>
    rcases op with op | op | op <;> cases op <;> cases h <;>
      refine ⟨_, _, rfl, rfl, rfl, ?_⟩ <;>
      first | exact .inl rfl | exact .inr ⟨_, rfl, fun _ => rfl⟩
  | bang | assign | leftParen | rightParen | leftBrace | rightBrace | comma =>
    cases h
    exact ⟨_, _, rfl, rfl, rfl, .inl rfl⟩
  | _ => cases h

/-- A symbol consists of marks. -/
theorem start_of_mem_spelling? {kind : Kind} {text : String} (h : kind.spelling? = some text)
    {c : Char} (hc : c ∈ text.toList) : start c = .mark := by
  have hall : text.toList.all (start · = .mark) = true := by
    cases kind with
    | operator op => rcases op with op | op | op <;> cases op <;> cases h <;> rfl
    | bang | assign | leftParen | rightParen | leftBrace | rightBrace | comma =>
      cases h
      rfl
    | _ => cases h
  simpa using List.all_eq_true.1 hall c hc

theorem length_le_one_of_spelling? {kind : Kind} {text : String} (h : kind.spelling? = some text)
    {c : Char} {p : List Char} (htext : text.toList = c :: p) : p.length ≤ 1 := by
  obtain ⟨d, q, hq, -, -, hlength⟩ := exists_toList_of_spelling? h
  obtain ⟨rfl, rfl⟩ := List.cons.inj (hq.symm.trans htext)
  rcases hlength with rfl | ⟨d, rfl, -⟩ <;> simp

/-- The rules that the first character `c` leaves open for a piece `c :: p`. -/
def Fits (c : Char) (p : List Char) (kind : Option Kind) : Prop :=
  match start c with
  | .newline => p = [] ∧ kind = some .endOfLine
  | .blank => (∀ d ∈ p, isBlank d) ∧ kind = none
  | .letter => (∀ d ∈ p, isWordChar d) ∧ kind = some (wordKind (String.ofList (c :: p)))
  | .digit =>
    (∀ d ∈ p, d.isDigit) ∧ kind = some (.integer (String.ofList (c :: p))) ∨
    ∃ whole part, p = whole ++ '.' :: part ∧ part ≠ [] ∧ (∀ d ∈ whole, d.isDigit) ∧
      (∀ d ∈ part, d.isDigit) ∧ kind = some (.float (Binary64.ofDigits (c :: whole) part))
  | .quote => ∃ body, IsBody body ∧ p = body ++ ['"'] ∧ kind = some (literalKind body)
  | .mark =>
    (∃ body, c = '/' ∧ p = '/' :: body ∧ (∀ d ∈ body, d ≠ '\n' ∧ d ≠ '\r') ∧ kind = none) ∨
    ∃ symbol text, kind = some symbol ∧ symbol.spelling? = some text ∧ text.toList = c :: p

theorem Rule.fits {kind : Option Kind} {q : List Char} (h : Rule kind q) :
    ∃ c p, q = c :: p ∧ Fits c p kind := by
  cases h with
  | newline => exact ⟨_, _, rfl, rfl, rfl⟩
  | @blanks q hne hall =>
    obtain ⟨c, p, rfl⟩ := List.exists_cons_of_ne_nil hne
    obtain ⟨hc, hp⟩ := List.forall_mem_cons.1 hall
    refine ⟨c, p, rfl, ?_⟩
    rw [Fits, start_of_isBlank hc]
    exact ⟨hp, rfl⟩
  | comment hall => exact ⟨_, _, rfl, .inl ⟨_, rfl, rfl, hall, rfl⟩⟩
  | @word c p hc hp =>
    refine ⟨c, p, rfl, ?_⟩
    rw [Fits, start_of_isAlpha hc]
    exact ⟨hp, rfl⟩
  | @integer q hne hall =>
    obtain ⟨c, p, rfl⟩ := List.exists_cons_of_ne_nil hne
    obtain ⟨hc, hp⟩ := List.forall_mem_cons.1 hall
    refine ⟨c, p, rfl, ?_⟩
    rw [Fits, start_of_isDigit hc]
    exact .inl ⟨hp, rfl⟩
  | @float whole part hwhole hpart hall hdigits =>
    obtain ⟨c, whole, rfl⟩ := List.exists_cons_of_ne_nil hwhole
    obtain ⟨hc, hall⟩ := List.forall_mem_cons.1 hall
    refine ⟨c, _, rfl, ?_⟩
    rw [Fits, start_of_isDigit hc]
    exact .inr ⟨whole, part, rfl, hpart, hall, hdigits, rfl⟩
  | literal hbody => exact ⟨_, _, rfl, _, hbody, rfl, rfl⟩
  | @symbol kind text hkind =>
    obtain ⟨c, p, htext, hmark, -⟩ := exists_toList_of_spelling? hkind
    refine ⟨c, p, htext, ?_⟩
    rw [Fits, hmark]
    exact .inr ⟨kind, text, rfl, hkind, htext⟩

/-- Read from its first character on. -/
theorem Rule.fits_cons {kind : Option Kind} {c : Char} {p : List Char} (h : Rule kind (c :: p)) :
    Fits c p kind := by
  obtain ⟨c', p', heq, hfits⟩ := h.fits
  cases heq
  exact hfits

theorem Rule.ne_nil {kind : Option Kind} {p : List Char} (h : Rule kind p) : p ≠ [] := by
  obtain ⟨c, p, rfl, -⟩ := h.fits
  exact List.cons_ne_nil c p

/-! ## The rules leave no choice -/

theorem takeWhile_append_stop {f : Char → Bool} {ds : List Char} (hds : ∀ d ∈ ds, f d) {c : Char}
    (hc : f c = false) (rest : List Char) : (ds ++ c :: rest).takeWhile f = ds := by
  simp [List.takeWhile_append_of_pos hds, hc]

theorem dropWhile_append_stop {f : Char → Bool} {ds : List Char} (hds : ∀ d ∈ ds, f d) {c : Char}
    (hc : f c = false) (rest : List Char) : (ds ++ c :: rest).dropWhile f = c :: rest := by
  simp [List.dropWhile_append_of_pos hds, hc]

/-- Two slashes are no symbol. -/
theorem spelling?_ne_slashes {kind : Kind} {text : String} (h : kind.spelling? = some text)
    (body : List Char) : text.toList ≠ '/' :: '/' :: body := by
  intro htext
  obtain ⟨c, p, hcp, -, hsymbol, hp⟩ := exists_toList_of_spelling? h
  obtain ⟨rfl, rfl⟩ := List.cons.inj (hcp.symm.trans htext)
  rcases hp with hp | ⟨d, hp, -⟩
  · cases hp
  · cases hp
    cases hsymbol

theorem Fits.unique {c : Char} {p : List Char} {kind kind' : Option Kind} (h : Fits c p kind)
    (h' : Fits c p kind') : kind = kind' := by
  unfold Fits at h h'
  cases hc : start c <;> simp only [hc] at h h'
  case newline | blank | letter => exact h.2.trans h'.2.symm
  case digit =>
    -- The first point ends the whole part, so a float is split in one way only.
    have hdot : Char.isDigit '.' = false := rfl
    rcases h with ⟨hall, rfl⟩ | ⟨whole, part, rfl, -, hwhole, -, rfl⟩
    · rcases h' with ⟨-, rfl⟩ | ⟨whole, part, rfl, -⟩
      · rfl
      · exact absurd (hall '.' (by simp)) (by decide)
    · rcases h' with ⟨hall, -⟩ | ⟨whole', part', heq, -, hwhole', -, rfl⟩
      · exact absurd (hall '.' (by simp)) (by decide)
      · have hsame : whole = whole' := by
          rw [← takeWhile_append_stop hwhole hdot part, heq,
            takeWhile_append_stop hwhole' hdot part']
        subst hsame
        rw [List.cons.inj (List.append_cancel_left heq) |>.2]
  case quote =>
    obtain ⟨body, -, rfl, rfl⟩ := h
    obtain ⟨body', -, heq, rfl⟩ := h'
    rw [List.append_cancel_right heq]
  case mark =>
    rcases h with ⟨body, rfl, rfl, -, rfl⟩ | ⟨symbol, text, rfl, hsymbol, htext⟩
    · rcases h' with ⟨-, -, -, -, rfl⟩ | ⟨symbol, text, -, hsymbol, htext⟩
      · rfl
      · exact absurd htext (spelling?_ne_slashes hsymbol body)
    · rcases h' with ⟨body, rfl, rfl, -⟩ | ⟨symbol', text', rfl, hsymbol', htext'⟩
      · exact absurd htext (spelling?_ne_slashes hsymbol body)
      · obtain ⟨d, q, hq, -, hat, -⟩ := exists_toList_of_spelling? hsymbol
        obtain ⟨d', q', hq', -, hat', -⟩ := exists_toList_of_spelling? hsymbol'
        obtain ⟨rfl, rfl⟩ := List.cons.inj (hq.symm.trans htext)
        obtain ⟨rfl, rfl⟩ := List.cons.inj (hq'.symm.trans htext')
        rw [(Piece.token.inj (hat.symm.trans hat')).1]

theorem Rule.unique {kind kind' : Option Kind} {p : List Char} (h : Rule kind p)
    (h' : Rule kind' p) : kind = kind' := by
  obtain ⟨c, q, rfl, hfits⟩ := h.fits
  exact hfits.unique h'.fits_cons

/-! ## Newlines -/

theorem IsBody.newline_not_mem {cs : List Char} (h : IsBody cs) : '\n' ∉ cs := by
  induction h with
  | nil => exact List.not_mem_nil
  | plain _ _ hc _ ih => simp [ih, hc.symm]
  | escaped hc _ ih => simp [ih, hc.symm]

/-- Nothing but a newline itself has a newline. -/
theorem Rule.newline_not_mem {kind : Option Kind} {p : List Char} (h : Rule kind p)
    (hp : p ≠ ['\n']) : '\n' ∉ p := by
  have hnot : ∀ {f : Char → Bool} {cs : List Char}, (∀ c ∈ cs, f c) → f '\n' = false → '\n' ∉ cs :=
    fun hall hf hmem => Bool.eq_false_iff.1 hf (hall _ hmem)
  cases h with
  | newline => exact absurd rfl hp
  | blanks _ hall => exact hnot hall rfl
  | comment hall => simpa using fun hmem => (hall _ hmem).1 rfl
  | word hc hall =>
    have hne := ne_newline_of_isAlphanum (by rw [Char.isAlphanum, hc, Bool.true_or])
    simpa using ⟨hne.symm, hnot hall rfl⟩
  | integer _ hall => exact hnot hall rfl
  | float _ _ hwhole hpart => simpa using ⟨hnot hwhole rfl, hnot hpart rfl⟩
  | literal hbody => simpa using hbody.newline_not_mem
  | symbol hkind => exact fun hmem => absurd (start_of_mem_spelling? hkind hmem) (by decide)

theorem takeWhile_atLineEnd {p : List Char} (hp : '\n' ∉ p) {rest : List Char}
    (hrest : AtLineEnd rest) : (p ++ rest).takeWhile (· != '\n') = p := by
  have hall : ∀ c ∈ p, (c != '\n') = true := fun c hc => bne_iff_ne.2 fun heq => hp (heq ▸ hc)
  rcases hrest with rfl | ⟨behind, rfl⟩
  · rw [List.append_nil, List.takeWhile_eq_self_iff]
    exact hall
  · exact takeWhile_append_stop hall rfl behind

/-- What has no newline and is found at the beginning of a text is found on its first line. -/
theorem prefix_of_atLineEnd {q p rest : List Char} (h : q <+: p ++ rest) (hq : '\n' ∉ q)
    (hp : '\n' ∉ p) (hrest : AtLineEnd rest) : q <+: p := by
  obtain ⟨r, hr⟩ := h
  have hall : ∀ c ∈ q, (c != '\n') = true := fun c hc => bne_iff_ne.2 fun heq => hq (heq ▸ hc)
  rw [← takeWhile_atLineEnd hp hrest, ← hr, List.takeWhile_append_of_pos hall]
  exact List.prefix_append _ _

/-! ## One way to read a text -/

theorem Longest.not_unmatched {kind : Option Kind} {p rest cs : List Char}
    (h : Longest kind p rest) (heq : p ++ rest = cs) : ¬Unmatched cs := fun hnone =>
  hnone kind p h.rule ⟨rest, heq⟩

/-- At most one piece can be taken. -/
theorem Taken.unique {kind kind' : Option Kind} {p p' rest rest' : List Char}
    (h : Taken kind p rest) (h' : Taken kind' p' rest') (heq : p ++ rest = p' ++ rest') :
    kind = kind' ∧ p = p' ∧ rest = rest' := by
  cases h with
  | rule h =>
    cases h' with
    | rule h' =>
      have hlength : p.length = p'.length :=
        Nat.le_antisymm (h'.longest _ _ h.rule ⟨rest, heq⟩)
          (h.longest _ _ h'.rule ⟨rest', heq.symm⟩)
      obtain ⟨rfl, rfl⟩ := List.append_inj heq hlength
      exact ⟨h.rule.unique h'.rule, rfl, rfl⟩
    | stray _ hnone => exact absurd hnone (h.not_unmatched heq)
    | unclosed hnone => exact absurd hnone (h.not_unmatched heq)
  | stray hc hnone =>
    cases h' with
    | rule h' => exact absurd hnone (h'.not_unmatched heq.symm)
    | stray =>
      obtain ⟨rfl, rfl⟩ := List.cons.inj heq
      exact ⟨rfl, rfl, rfl⟩
    | unclosed => exact absurd (List.cons.inj heq).1 hc
  | @unclosed q _ hnone hq hrest =>
    cases h' with
    | rule h' => exact absurd hnone (h'.not_unmatched heq.symm)
    | stray hc => exact absurd (List.cons.inj heq).1.symm hc
    | @unclosed q' _ _ hq' hrest' =>
      have htail : q ++ rest = q' ++ rest' := (List.cons.inj heq).2
      have hsame : q = q' := by
        rw [← takeWhile_atLineEnd hq hrest, htail, takeWhile_atLineEnd hq' hrest']
      subst hsame
      exact ⟨rfl, rfl, List.append_cancel_left htail⟩

theorem Taken.ne_nil {kind : Option Kind} {p rest : List Char} (h : Taken kind p rest) :
    p ≠ [] := by
  cases h with
  | rule h => exact h.rule.ne_nil
  | stray => exact List.cons_ne_nil _ _
  | unclosed => exact List.cons_ne_nil _ _

/-- A text has at most one list of tokens. -/
theorem Lexed.unique {place : Position} {cs : List Char} {ts us : List Token}
    (h : Lexed place cs ts) (h' : Lexed place cs us) : ts = us := by
  induction h generalizing us with
  | done =>
    -- The second reading cuts the same text in its own way, so the text needs a name first.
    generalize hcs : ([] : List Char) = cs at h'
    cases h' with
    | done => rfl
    | gap hp => exact absurd (List.append_eq_nil_iff.1 hcs.symm).1 hp.ne_nil
    | token hp => exact absurd (List.append_eq_nil_iff.1 hcs.symm).1 hp.ne_nil
  | @gap place p rest ts hp _ ih =>
    generalize hcs : p ++ rest = cs at h'
    cases h' with
    | done => exact absurd (List.append_eq_nil_iff.1 hcs).1 hp.ne_nil
    | gap hq hrest =>
      obtain ⟨-, rfl, rfl⟩ := hp.unique hq hcs
      exact ih hrest
    | token hq => cases (hp.unique hq hcs).1
  | @token place kind p rest ts hp _ ih =>
    generalize hcs : p ++ rest = cs at h'
    cases h' with
    | done => exact absurd (List.append_eq_nil_iff.1 hcs).1 hp.ne_nil
    | gap hq => cases (hp.unique hq hcs).1
    | token hq hrest =>
      obtain ⟨hkind, rfl, rfl⟩ := hp.unique hq hcs
      cases hkind
      rw [ih hrest]

/-! ## What stands behind a line -/

/-- Whatever is taken, a comment, a literal or an error too, ends before a newline. -/
theorem Taken.eq_newline {kind : Option Kind} {p rest : List Char} (h : Taken kind p rest)
    (hmem : '\n' ∈ p) : kind = some .endOfLine ∧ p = ['\n'] := by
  cases h with
  | rule h =>
    have hp : p = ['\n'] := by
      by_contra hne
      exact h.rule.newline_not_mem hne hmem
    subst hp
    exact ⟨h.rule.unique .newline, rfl⟩
  | stray _ hnone =>
    obtain rfl := List.mem_singleton.1 hmem
    exact absurd (List.prefix_append ['\n'] _) (hnone _ _ .newline)
  | unclosed _ hp => simp [hp] at hmem

/-- Which rules match on a line does not depend on what stands behind it. -/
theorem Rule.prefix_append_iff {kind : Option Kind} {q cs rest : List Char} (h : Rule kind q)
    (hne : cs ≠ []) (hcs : '\n' ∉ cs) (hrest : AtLineEnd rest) : q <+: cs ++ rest ↔ q <+: cs := by
  refine ⟨fun hq => ?_, fun hq => hq.trans (List.prefix_append cs rest)⟩
  by_cases hnewline : q = ['\n']
  · obtain ⟨c, cs, rfl⟩ := List.exists_cons_of_ne_nil hne
    rw [hnewline, List.cons_append, List.cons_prefix_cons] at hq
    exact absurd (hq.1 ▸ List.mem_cons_self) hcs
  · exact prefix_of_atLineEnd hq (h.newline_not_mem hnewline) hcs hrest

theorem unmatched_append_iff {cs rest : List Char} (hne : cs ≠ []) (hcs : '\n' ∉ cs)
    (hrest : AtLineEnd rest) : Unmatched (cs ++ rest) ↔ Unmatched cs :=
  forall_congr' fun _ => forall_congr' fun _ => forall_congr' fun h =>
    not_congr (h.prefix_append_iff hne hcs hrest)

theorem longest_append_iff {kind : Option Kind} {p rest behind : List Char}
    (hline : '\n' ∉ p ++ rest) (hbehind : AtLineEnd behind) :
    Longest kind p (rest ++ behind) ↔ Longest kind p rest := by
  have hfront : ∀ {kind' q}, Rule kind p → Rule kind' q →
      (q <+: p ++ (rest ++ behind) ↔ q <+: p ++ rest) := fun hp hq => by
    rw [← List.append_assoc]
    exact hq.prefix_append_iff (List.append_ne_nil_of_left_ne_nil hp.ne_nil _) hline hbehind
  exact ⟨fun h => ⟨h.rule, fun _ _ hq hle => h.longest _ _ hq ((hfront h.rule hq).2 hle)⟩,
    fun h => ⟨h.rule, fun _ _ hq hle => h.longest _ _ hq ((hfront h.rule hq).1 hle)⟩⟩

theorem atLineEnd_append_iff {rest behind : List Char} (hrest : '\n' ∉ rest)
    (hbehind : AtLineEnd behind) : AtLineEnd (rest ++ behind) ↔ AtLineEnd rest := by
  rcases rest with _ | ⟨c, rest⟩
  · exact ⟨fun _ => .inl rfl, fun _ => hbehind⟩
  · simp only [AtLineEnd, List.cons_append, List.cons.injEq, reduceCtorEq, false_or]
    refine ⟨?_, ?_⟩ <;>
      exact fun ⟨_, hc, _⟩ => absurd (hc ▸ List.mem_cons_self) hrest

/-- What is taken on a line does not depend on what stands behind it. -/
theorem taken_append_iff {kind : Option Kind} {p rest behind : List Char}
    (hline : '\n' ∉ p ++ rest) (hbehind : AtLineEnd behind) :
    Taken kind p (rest ++ behind) ↔ Taken kind p rest := by
  have hrest : '\n' ∉ rest := fun hmem => hline (List.mem_append_right p hmem)
  have hnone : ∀ q, q ≠ [] → p = q →
      (Unmatched (q ++ (rest ++ behind)) ↔ Unmatched (q ++ rest)) := fun q hne hq => by
    rw [← List.append_assoc]
    exact unmatched_append_iff (List.append_ne_nil_of_left_ne_nil hne _) (hq ▸ hline) hbehind
  constructor
  · intro h
    generalize htail : rest ++ behind = tail at h
    cases h with
    | rule h => exact .rule ((longest_append_iff hline hbehind).1 (htail ▸ h))
    | @stray c _ hc h =>
      exact .stray hc ((hnone [c] (List.cons_ne_nil _ _) rfl).1 (htail ▸ h))
    | @unclosed q _ h hq hend =>
      exact .unclosed ((hnone ('"' :: q) (List.cons_ne_nil _ _) rfl).1 (htail ▸ h)) hq
        ((atLineEnd_append_iff hrest hbehind).1 (htail ▸ hend))
  · intro h
    cases h with
    | rule h => exact .rule ((longest_append_iff hline hbehind).2 h)
    | @stray c _ hc h => exact .stray hc ((hnone [c] (List.cons_ne_nil _ _) rfl).2 h)
    | @unclosed q _ h hq hend =>
      exact .unclosed ((hnone ('"' :: q) (List.cons_ne_nil _ _) rfl).2 h) hq
        ((atLineEnd_append_iff hrest hbehind).2 hend)

end Token

end DarjaLang
