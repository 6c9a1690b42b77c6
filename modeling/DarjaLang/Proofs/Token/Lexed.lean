import DarjaLang.Proofs.Token.Rules

/-!
# The scanner follows the lexical rules

The scanner cuts a text into lines, and on a line it settles a piece at its first character.  The
rules of `DarjaLang.Proofs.Token.Rules` know neither lines nor first characters.  Both find the same
tokens.

* `taken_of_pieceAt`: what the scanner recognises on a line is what the rules take there.
* `lexed_iff`: the rules find the tokens of `scan`, up to the end of a text without a final newline.
-/

set_option autoImplicit false

namespace DarjaLang

namespace Token

/-! ## Matches from the first character on -/

theorem Longest.of_fits {c : Char} {p rest : List Char} {kind : Option Kind}
    (hrule : Rule kind (c :: p))
    (hfits : ∀ kind' q, Fits c q kind' → q <+: p ++ rest → q.length ≤ p.length) :
    Longest kind (c :: p) rest := by
  refine ⟨hrule, fun kind' q hq hfront => ?_⟩
  obtain ⟨d, q, rfl, hd⟩ := hq.fits
  obtain ⟨rfl, htail⟩ := List.cons_prefix_cons.1 hfront
  simpa using hfits kind' q hd htail

theorem Unmatched.of_fits {c : Char} {cs : List Char}
    (hfits : ∀ kind q, Fits c q kind → ¬q <+: cs) : Unmatched (c :: cs) := by
  intro kind q hq hfront
  obtain ⟨d, q, rfl, hd⟩ := hq.fits
  obtain ⟨rfl, htail⟩ := List.cons_prefix_cons.1 hfront
  exact hfits kind q hd htail

theorem length_le_takeWhile {f : Char → Bool} {q cs : List Char} (hq : q <+: cs)
    (hall : ∀ d ∈ q, f d) : q.length ≤ (cs.takeWhile f).length := by
  obtain ⟨r, rfl⟩ := hq
  simp [List.takeWhile_append_of_pos hall]

theorem of_mem_takeWhile {f : Char → Bool} {cs : List Char} :
    ∀ d ∈ cs.takeWhile f, f d := fun _ => List.mem_takeWhile_imp

theorem take_length_takeWhile (f : Char → Bool) (cs : List Char) :
    cs.take (cs.takeWhile f).length = cs.takeWhile f :=
  (List.prefix_iff_eq_take.1 (List.takeWhile_prefix f)).symm

theorem drop_length_takeWhile (f : Char → Bool) (cs : List Char) :
    cs.drop (cs.takeWhile f).length = cs.dropWhile f := by
  rw [← List.append_cancel_left_eq (cs.takeWhile f), List.takeWhile_append_dropWhile,
    ← take_length_takeWhile, List.length_take_of_le (List.takeWhile_prefix f).length_le,
    List.take_append_drop]

theorem take_drop_of_eq_append {cs p rest : List Char} (h : cs = p ++ rest) {more : Nat}
    (hmore : p.length = more) : cs.take more = p ∧ cs.drop more = rest := by
  subst h
  exact ⟨List.take_left' hmore, List.drop_left' hmore⟩

/-! ## One piece of a line -/

/-- Blanks go on as long as there are blanks. -/
theorem longest_blanks {c : Char} (hc : isBlank c = true) (cs : List Char) :
    Longest none (c :: cs.takeWhile isBlank) (cs.dropWhile isBlank) := by
  refine .of_fits (.blanks (List.cons_ne_nil _ _) (List.forall_mem_cons.2 ⟨hc, of_mem_takeWhile⟩))
    fun kind q hq hfront => ?_
  rw [List.takeWhile_append_dropWhile] at hfront
  rw [Fits, start_of_isBlank hc] at hq
  exact length_le_takeWhile hfront hq.1

/-- A comment goes on up to the end of the line or a carriage return. -/
theorem longest_comment {cs : List Char} (hcs : '\n' ∉ cs) :
    Longest none ('/' :: '/' :: cs.takeWhile (· != '\r')) (cs.dropWhile (· != '\r')) := by
  refine .of_fits (.comment fun d hd => ⟨?_, ?_⟩) fun kind q hq hfront => ?_
  · rintro rfl
    exact hcs ((List.takeWhile_prefix _).subset hd)
  · simpa using List.mem_takeWhile_imp hd
  · rw [List.cons_append, List.takeWhile_append_dropWhile] at hfront
    rcases hq with ⟨body, -, rfl, hbody, -⟩ | ⟨symbol, text, -, hsymbol, htext⟩
    · have hle := length_le_takeWhile (f := (· != '\r')) (List.cons_prefix_cons.1 hfront).2
        fun d hd => bne_iff_ne.2 (hbody d hd).2
      simpa using hle
    · have hle := length_le_one_of_spelling? hsymbol htext
      exact hle.trans (Nat.le_add_left 1 _)

theorem longest_word {c : Char} (hc : c.isAlpha = true) (cs : List Char) :
    Longest (some (wordKind (String.ofList (c :: cs.takeWhile isWordChar))))
      (c :: cs.takeWhile isWordChar) (cs.dropWhile isWordChar) := by
  refine .of_fits (.word hc of_mem_takeWhile) fun kind q hq hfront => ?_
  rw [List.takeWhile_append_dropWhile] at hfront
  rw [Fits, start_of_isAlpha hc] at hq
  exact length_le_takeWhile hfront hq.1

/-! ### Numbers -/

/-- A point behind digits stands behind all the digits. -/
theorem point_behind_digits {whole part cs : List Char} (h : whole ++ '.' :: part <+: cs)
    (hwhole : ∀ d ∈ whole, d.isDigit) :
    whole = cs.takeWhile Char.isDigit ∧
      ∃ behind, cs.dropWhile Char.isDigit = '.' :: behind ∧ part <+: behind := by
  obtain ⟨r, rfl⟩ := h
  have hdot : Char.isDigit '.' = false := rfl
  rw [List.append_assoc, List.cons_append, takeWhile_append_stop hwhole hdot,
    dropWhile_append_stop hwhole hdot]
  exact ⟨rfl, _, rfl, List.prefix_append part r⟩

/-- Digits are an integer if there is no point behind them, or no digit behind the point. -/
theorem longest_integer {c : Char} (hc : c.isDigit = true) {cs : List Char}
    (hpoint : ∀ behind, cs.dropWhile Char.isDigit = '.' :: behind →
      behind.takeWhile Char.isDigit = []) :
    Longest (some (.integer (String.ofList (c :: cs.takeWhile Char.isDigit))))
      (c :: cs.takeWhile Char.isDigit) (cs.dropWhile Char.isDigit) := by
  refine .of_fits (.integer (List.cons_ne_nil _ _) (List.forall_mem_cons.2 ⟨hc, of_mem_takeWhile⟩))
    fun kind q hq hfront => ?_
  rw [List.takeWhile_append_dropWhile] at hfront
  rw [Fits, start_of_isDigit hc] at hq
  rcases hq with ⟨hall, -⟩ | ⟨whole, part, rfl, hne, hwhole, hpart, -⟩
  · exact length_le_takeWhile hfront hall
  · obtain ⟨-, behind, hbehind, hfront⟩ := point_behind_digits hfront hwhole
    have hle := length_le_takeWhile hfront hpart
    rw [hpoint behind hbehind] at hle
    exact absurd (List.length_eq_zero_iff.1 (Nat.le_zero.1 hle)) hne

/-- With a point and a digit behind them they are a float. -/
theorem longest_float {c : Char} (hc : c.isDigit = true) {cs behind : List Char}
    (hbehind : cs.dropWhile Char.isDigit = '.' :: behind)
    (hpart : behind.takeWhile Char.isDigit ≠ []) :
    Longest (some (.float (Binary64.ofDigits (c :: cs.takeWhile Char.isDigit)
        (behind.takeWhile Char.isDigit))))
      (c :: (cs.takeWhile Char.isDigit ++ '.' :: behind.takeWhile Char.isDigit))
      (behind.dropWhile Char.isDigit) := by
  refine .of_fits (.float (List.cons_ne_nil c _) hpart
    (List.forall_mem_cons.2 ⟨hc, of_mem_takeWhile⟩) of_mem_takeWhile) fun kind q hq hfront => ?_
  rw [List.append_assoc, List.cons_append, List.takeWhile_append_dropWhile, ← hbehind,
    List.takeWhile_append_dropWhile] at hfront
  rw [Fits, start_of_isDigit hc] at hq
  rcases hq with ⟨hall, -⟩ | ⟨whole, part, rfl, -, hwhole, hdigits, -⟩
  · have hle := length_le_takeWhile hfront hall
    rw [List.length_append]
    omega
  · obtain ⟨rfl, behind', hbehind', hfront⟩ := point_behind_digits hfront hwhole
    obtain rfl : behind = behind' := (List.cons.inj (hbehind.symm.trans hbehind')).2
    have hle := length_le_takeWhile hfront hdigits
    simpa using hle

theorem longest_number {c : Char} (hc : c.isDigit = true) {cs : List Char} {kind : Kind}
    {more : Nat} (h : numberAt c cs = .token kind more) :
    Longest (some kind) (c :: cs.take more) (cs.drop more) := by
  rw [numberAt] at h
  dsimp only at h
  rw [drop_length_takeWhile] at h
  split at h
  · next behind hbehind =>
    split at h
    · next hempty =>
      cases h
      rw [take_length_takeWhile, drop_length_takeWhile]
      refine longest_integer hc fun behind' hbehind' => ?_
      obtain rfl : behind = behind' := (List.cons.inj (hbehind.symm.trans hbehind')).2
      exact List.isEmpty_iff.1 hempty
    · next hpart =>
      cases h
      have hcs : cs = (cs.takeWhile Char.isDigit ++ '.' :: behind.takeWhile Char.isDigit) ++
          behind.dropWhile Char.isDigit := by
        rw [List.append_assoc, List.cons_append, List.takeWhile_append_dropWhile, ← hbehind,
          List.takeWhile_append_dropWhile]
      have hmore : (cs.takeWhile Char.isDigit ++ '.' :: behind.takeWhile Char.isDigit).length =
          (cs.takeWhile Char.isDigit).length + 1 + (behind.takeWhile Char.isDigit).length := by
        rw [List.length_append, List.length_cons]
        omega
      obtain ⟨htake, hdrop⟩ := take_drop_of_eq_append hcs hmore
      rw [htake, hdrop]
      exact longest_float hc hbehind fun hnil => hpart (List.isEmpty_iff.2 hnil)
  · next hpoint =>
    cases h
    rw [take_length_takeWhile, drop_length_takeWhile]
    exact longest_integer hc fun behind hbehind => absurd hbehind (hpoint behind)

/-! ### Literals -/

theorem stringBody?_append {body : List Char} (h : IsBody body) (rest : List Char) :
    stringBody? (body ++ '"' :: rest) = some body := by
  induction h with
  | nil => simp [stringBody?]
  | @plain c cs hquote hslash _ _ ih => simp [stringBody?, hquote, hslash, ih]
  | escaped _ _ ih => simp [stringBody?, ih]

/-- Behind a body there is a quote. -/
theorem append_of_stringBody? {cs body : List Char} (h : stringBody? cs = some body) :
    ∃ rest, cs = body ++ '"' :: rest := by
  fun_induction stringBody? cs generalizing body with
  | case1 => cases h
  | case2 => cases h
  | case3 c rest ih =>
    obtain ⟨body, hbody, rfl⟩ := Option.map_eq_some_iff.1 h
    obtain ⟨rest, rfl⟩ := ih hbody
    exact ⟨rest, rfl⟩
  | case4 rest =>
    cases h
    exact ⟨rest, rfl⟩
  | case5 c rest hend hslash hquote ih =>
    obtain ⟨body, hbody, rfl⟩ := Option.map_eq_some_iff.1 h
    obtain ⟨behind, rfl⟩ := ih hbody
    exact ⟨behind, rfl⟩

theorem isBody_of_stringBody? {cs body : List Char} (h : stringBody? cs = some body)
    (hcs : '\n' ∉ cs) : IsBody body := by
  fun_induction stringBody? cs generalizing body with
  | case1 => cases h
  | case2 => cases h
  | case3 c rest ih =>
    obtain ⟨body, hbody, rfl⟩ := Option.map_eq_some_iff.1 h
    simp only [List.mem_cons, not_or] at hcs
    exact .escaped (Ne.symm hcs.2.1) (ih hbody hcs.2.2)
  | case4 rest =>
    cases h
    exact .nil
  | case5 c rest hend hslash hquote ih =>
    obtain ⟨body, hbody, rfl⟩ := Option.map_eq_some_iff.1 h
    simp only [List.mem_cons, not_or] at hcs
    refine .plain hquote ?_ (Ne.symm hcs.1) (ih hbody hcs.2)
    -- a backslash that takes nothing along would be the last character, but a quote comes behind
    rintro rfl
    obtain ⟨behind, rfl⟩ := append_of_stringBody? hbody
    rcases body with _ | ⟨d, body⟩
    · exact hslash _ _ rfl rfl
    · exact hslash _ _ rfl rfl

theorem stringAt_eq_some {cs body : List Char} (h : stringBody? cs = some body) :
    stringAt cs = .token (literalKind body) (body.length + 1) := by
  rw [stringAt, h, literalKind]
  dsimp only
  rcases unescape? body with _ | text <;> rfl

/-- A closed literal ends at its first quote that is not escaped. -/
theorem longest_literal {body : List Char} (h : IsBody body) (rest : List Char) :
    Longest (some (literalKind body)) ('"' :: (body ++ ['"'])) rest := by
  refine .of_fits (.literal h) fun kind q hq hfront => ?_
  obtain ⟨body', h', rfl, -⟩ := hq
  obtain ⟨rest', hrest'⟩ := hfront
  simp only [List.append_assoc, List.singleton_append] at hrest'
  have hsame := stringBody?_append h' rest'
  rw [hrest', stringBody?_append h rest] at hsame
  cases hsame
  exact Nat.le_refl _

theorem unmatched_of_stringBody? {cs : List Char} (h : stringBody? cs = none) :
    Unmatched ('"' :: cs) := by
  refine .of_fits fun kind q hq hfront => ?_
  obtain ⟨body, hall, rfl, -⟩ := hq
  obtain ⟨rest, rfl⟩ := hfront
  rw [List.append_assoc, List.singleton_append, stringBody?_append hall] at h
  cases h

/-- A literal that is not closed takes the rest of the line. -/
theorem taken_literal {cs : List Char} (hcs : '\n' ∉ cs) {kind : Kind} {more : Nat}
    (h : stringAt cs = .token kind more) :
    Taken (some kind) ('"' :: cs.take more) (cs.drop more) := by
  rcases hbody : stringBody? cs with _ | body
  · rw [stringAt, hbody] at h
    cases h
    rw [List.take_length, List.drop_length]
    refine .unclosed ?_ hcs (.inl rfl)
    rw [List.append_nil]
    exact unmatched_of_stringBody? hbody
  · have hall := isBody_of_stringBody? hbody hcs
    obtain ⟨rest, rfl⟩ := append_of_stringBody? hbody
    rw [stringAt_eq_some hbody] at h
    cases h
    have hsplit : body ++ '"' :: rest = body ++ ['"'] ++ rest := by simp
    have hmore : (body ++ ['"']).length = body.length + 1 := List.length_append
    obtain ⟨htake, hdrop⟩ := take_drop_of_eq_append hsplit hmore
    rw [htake, hdrop]
    exact .rule (longest_literal hall rest)

/-! ### Marks -/

/-- A mark that the scanner rejects is no symbol. -/
theorem toList_ne_of_symbolAt_error {c d : Char} {cs : List Char} {more : Nat}
    (h : symbolAt c cs = .token (.error d) more) {kind : Kind} {text : String}
    (hkind : kind.spelling? = some text) : text.toList ≠ [c] := by
  intro htext
  replace htext := htext.symm
  rw [symbolAt.eq_def] at h
  split at h <;> try cases h
  cases kind with
  | operator op =>
    rcases op with op | op | op <;> cases op <;> cases hkind <;>
      simp_all [BinaryOperator.symbol, Arithmetic.symbol, Comparison.symbol, Connective.symbol]
  | bang | assign | leftParen | rightParen | leftBrace | rightBrace | comma =>
    cases hkind
    simp_all [UnaryOperator.symbol]
  | _ => cases hkind

theorem symbolAt_cases {c : Char} {cs : List Char} {kind : Kind} {more : Nat}
    (h : symbolAt c cs = .token kind more) :
    kind.spelling? = some (String.ofList (c :: cs.take more)) ∨ kind = .error c ∧ more = 0 := by
  rw [symbolAt.eq_def] at h
  split at h <;> cases h <;> first | exact .inl rfl | exact .inr ⟨rfl, rfl⟩

section Marks

variable {c : Char} {cs : List Char} {kind : Kind} {more : Nat}

/-- A rule that matches at a mark is a symbol: the one that the scanner finds, if it has two
characters. -/
theorem symbol_of_fits (hc : start c = .mark) (hcomment : startsComment c cs = false)
    (h : symbolAt c cs = .token kind more) {kind' : Option Kind} {q : List Char}
    (hq : Fits c q kind') (hfront : q <+: cs) :
    ∃ symbol text, symbol.spelling? = some text ∧
      (q = [] ∧ text.toList = [c] ∨ q.length = 1 ∧ kind = symbol ∧ more = 1) := by
  obtain ⟨rest, rfl⟩ := hfront
  rw [Fits, hc] at hq
  rcases hq with ⟨body, rfl, rfl, -⟩ | ⟨symbol, text, -, hsymbol, htext⟩
  · simp [startsComment] at hcomment
  · refine ⟨symbol, text, hsymbol, ?_⟩
    obtain ⟨d, p, hp, -, -, hlength⟩ := exists_toList_of_spelling? hsymbol
    obtain ⟨rfl, rfl⟩ := List.cons.inj (hp.symm.trans htext)
    rcases hlength with rfl | ⟨e, rfl, hpair⟩
    · exact .inl ⟨rfl, htext⟩
    · obtain ⟨hkind, hmore⟩ := Piece.token.inj (h.symm.trans (hpair rest))
      exact .inr ⟨rfl, hkind, hmore⟩

/-- A symbol of two characters goes before one of one, and a comment before both. -/
theorem longest_symbol (hc : start c = .mark) (hcomment : startsComment c cs = false)
    (h : symbolAt c cs = .token kind more)
    (hkind : kind.spelling? = some (String.ofList (c :: cs.take more))) :
    Longest (some kind) (c :: cs.take more) (cs.drop more) := by
  have hrule := Rule.symbol hkind
  rw [String.toList_ofList] at hrule
  refine .of_fits hrule fun kind' q hq hfront => ?_
  rw [List.take_append_drop] at hfront
  obtain ⟨-, -, -, ⟨rfl, -⟩ | ⟨hq, -, rfl⟩⟩ := symbol_of_fits hc hcomment h hq hfront
  · exact Nat.zero_le _
  · have hle := hfront.length_le
    rw [List.length_take]
    omega

theorem unmatched_of_symbolAt (hc : start c = .mark) (hcomment : startsComment c cs = false)
    (h : symbolAt c cs = .token (.error c) 0) : Unmatched (c :: cs) := by
  refine .of_fits fun kind q hq hfront => ?_
  obtain ⟨symbol, text, hsymbol, ⟨-, htext⟩ | ⟨-, -, hmore⟩⟩ :=
    symbol_of_fits hc hcomment h hq hfront
  · exact toList_ne_of_symbolAt_error h hsymbol htext
  · cases hmore

theorem taken_symbol (hc : start c = .mark) (hcomment : startsComment c cs = false)
    (h : symbolAt c cs = .token kind more) :
    Taken (some kind) (c :: cs.take more) (cs.drop more) := by
  rcases symbolAt_cases h with hkind | ⟨rfl, rfl⟩
  · exact .rule (longest_symbol hc hcomment h hkind)
  · refine .stray ?_ (unmatched_of_symbolAt hc hcomment h)
    rintro rfl
    cases hc

end Marks

/-! ## A line -/

/-- **What the scanner recognises on a line is what the rules take there.** -/
theorem taken_of_pieceAt {c : Char} {cs : List Char} (hline : '\n' ∉ c :: cs) {kind : Kind}
    {more : Nat} (h : pieceAt c cs = .token kind more) :
    Taken (some kind) (c :: cs.take more) (cs.drop more) := by
  rw [List.mem_cons, not_or] at hline
  rw [pieceAt] at h
  split at h
  · cases h
  next hblank =>
  split at h
  · cases h
  next hcomment =>
  split at h
  · next halpha =>
    cases h
    rw [take_length_takeWhile, drop_length_takeWhile]
    exact .rule (longest_word halpha cs)
  next halpha =>
  split at h
  · next hdigit => exact .rule (longest_number hdigit h)
  next hdigit =>
  split at h
  · next hquote =>
    obtain rfl := eq_of_beq hquote
    exact taken_literal hline.2 h
  · next hquote =>
    have hmark : start c = .mark := by
      simp only [beq_iff_eq] at hquote
      simp [start, Ne.symm hline.1, hblank, halpha, hdigit, hquote]
    exact taken_symbol hmark (Bool.eq_false_iff.2 hcomment) h

/-- Between tokens the scanner passes over comments, apart from blanks. -/
theorem taken_of_pieceAt_gap {c : Char} {cs : List Char} (hline : '\n' ∉ c :: cs) {more : Nat}
    (hblank : isBlank c = false) (h : pieceAt c cs = .gap more) :
    Taken none (c :: cs.take more) (cs.drop more) := by
  obtain ⟨hc, -⟩ | ⟨hcomment, hpiece⟩ | hpiece | ⟨kind, more', hpiece, -⟩ := pieceAt_cases c cs
  · rw [hblank] at hc
    cases hc
  · simp only [startsComment, Bool.and_eq_true, beq_iff_eq] at hcomment
    obtain ⟨rfl, hhead⟩ := hcomment
    obtain ⟨cs, rfl⟩ := List.head?_eq_some_iff.1 hhead
    cases hpiece.symm.trans h
    rw [take_length_takeWhile, drop_length_takeWhile]
    simp only [List.mem_cons, not_or] at hline
    exact .rule (longest_comment hline.2.2)
  · cases hpiece.symm.trans h
  · cases hpiece.symm.trans h

/-- The characters of a piece that started earlier are passed over. -/
theorem scanFrom_skip_after {cs : List Char} (hcs : '\n' ∉ cs) (place : Position) (skip : Nat) :
    scanFrom place skip cs = scanFrom (place.after (cs.take skip)) 0 (cs.drop skip) := by
  induction skip generalizing place cs with
  | zero => rfl
  | succ skip ih =>
    rcases cs with _ | ⟨c, cs⟩
    · rfl
    · rw [List.mem_cons, not_or] at hcs
      rw [scanFrom, ih hcs.2, List.take_succ_cons, List.drop_succ_cons,
        Position.after_cons_of_ne (Ne.symm hcs.1)]

theorem scanFrom_blanks {bs : List Char} (hbs : ∀ c ∈ bs, isBlank c) (place : Position)
    (cs : List Char) : scanFrom place 0 (bs ++ cs) = scanFrom (place.after bs) 0 cs := by
  induction bs generalizing place with
  | nil => rfl
  | cons b bs ih =>
    obtain ⟨hb, hbs⟩ := List.forall_mem_cons.1 hbs
    have hpiece : pieceAt b (bs ++ cs) = .gap 0 := by rw [pieceAt, if_pos hb]
    have hne : b ≠ '\n' := by
      rintro rfl
      exact absurd hb (by decide)
    rw [List.cons_append, scanFrom, hpiece, Position.after_cons_of_ne hne]
    exact ih hbs _

/-- The scan of a line takes one piece, and goes on behind it. -/
theorem exists_scanFrom_cons {c : Char} {cs : List Char} (hline : '\n' ∉ c :: cs)
    (place : Position) :
    ∃ kind p behind, c :: cs = p ++ behind ∧ Taken kind p behind ∧
      scanFrom place 0 (c :: cs) =
        (kind.map (⟨·, String.ofList p, place⟩)).toList ++ scanFrom (place.after p) 0 behind := by
  have htake : ∀ more, c :: cs = (c :: cs.take more) ++ cs.drop more := fun more => by
    rw [List.cons_append, List.take_append_drop]
  have hskip : ∀ more, scanFrom ⟨place.line, place.column + 1⟩ more cs =
      scanFrom (place.after (c :: cs.take more)) 0 (cs.drop more) := fun more => by
    rw [List.mem_cons, not_or] at hline
    rw [scanFrom_skip_after hline.2, Position.after_cons_of_ne (Ne.symm hline.1)]
  by_cases hblank : isBlank c = true
  · have hsplit : c :: cs = (c :: cs.takeWhile isBlank) ++ cs.dropWhile isBlank := by
      rw [List.cons_append, List.takeWhile_append_dropWhile]
    have hall : ∀ d ∈ c :: cs.takeWhile isBlank, isBlank d :=
      List.forall_mem_cons.2 ⟨hblank, of_mem_takeWhile⟩
    refine ⟨none, _, _, hsplit, .rule (longest_blanks hblank cs), ?_⟩
    rw [hsplit, scanFrom_blanks hall]
    rfl
  rcases hat : pieceAt c cs with more | ⟨kind, more⟩
  · refine ⟨none, _, _, htake more, taken_of_pieceAt_gap hline (Bool.eq_false_iff.2 hblank) hat, ?_⟩
    rw [scanFrom, hat, ← hskip]
    rfl
  · refine ⟨some kind, _, _, htake more, taken_of_pieceAt hline hat, ?_⟩
    rw [scanFrom, hat, ← hskip]
    rfl

/-- The tokens of a line are those the rules find there, whatever stands behind it. -/
theorem lexed_scanFrom {cs : List Char} (hcs : '\n' ∉ cs) {rest : List Char}
    (hrest : AtLineEnd rest) {place : Position} {ts : List Token}
    (h : Lexed (place.after cs) rest ts) :
    Lexed place (cs ++ rest) (scanFrom place 0 cs ++ ts) := by
  -- What is left behind a piece is shorter, but it is not the tail that the scanner goes on with.
  induction hn : cs.length using Nat.strongRecOn generalizing cs place with
  | ind n ih =>
  subst hn
  rcases cs with _ | ⟨c, cs⟩
  · exact h
  obtain ⟨kind, p, behind, hsplit, htaken, hscan⟩ := exists_scanFrom_cons hcs place
  have hlt : behind.length < (c :: cs).length := by
    have hpos := List.length_pos_iff.2 htaken.ne_nil
    rw [hsplit, List.length_append]
    omega
  rw [hsplit] at hcs h
  rw [Position.after_append] at h
  have hlexed := ih _ hlt (fun hmem => hcs (List.mem_append_right p hmem)) h rfl
  have htaken := (taken_append_iff hcs hrest).2 htaken
  rw [hscan, hsplit, List.append_assoc, List.append_assoc]
  rcases kind with _ | kind
  · exact .gap htaken hlexed
  · exact .token htaken hlexed

/-! ## A text -/

theorem longest_newline (rest : List Char) : Longest (some .endOfLine) ['\n'] rest :=
  .of_fits .newline fun _ _ hq _ => Nat.le_of_eq (congrArg List.length hq.1)

theorem lexed_scanUnended (line : Nat) (read cs : List Char) (hread : '\n' ∉ read) :
    Lexed ⟨line, 1⟩ (read.reverse ++ cs) (scanUnended line read cs) := by
  have hline : '\n' ∉ read.reverse := fun hmem => hread (List.mem_reverse.1 hmem)
  fun_induction scanUnended line read cs with
  | case1 line read =>
    have hdone : Lexed ((⟨line, 1⟩ : Position).after read.reverse) [] [] := .done
    simpa [scanLine] using lexed_scanFrom hline (.inl rfl) hdone
  | case2 line read rest ih =>
    refine lexed_scanFrom hline (.inr ⟨rest, rfl⟩) ?_
    have hplace : (⟨line, 1⟩ : Position).after read.reverse = ⟨line, read.reverse.length + 1⟩ := by
      rw [Position.after_of_no_newline hline, Nat.add_comm]
    rw [hplace]
    exact .token (.rule (longest_newline rest)) (ih List.not_mem_nil List.not_mem_nil)
  | case3 line read c rest hc ih =>
    have hread' : '\n' ∉ c :: read := by
      rw [List.mem_cons, not_or]
      exact ⟨fun heq => hc heq.symm, hread⟩
    have h := ih hread' fun hmem => hread' (List.mem_reverse.1 hmem)
    rwa [List.reverse_cons, List.append_assoc, List.singleton_append] at h

/-- **The rules find the tokens of a text**, and no others, up to the end that a text without a
final newline is given. -/
theorem lexed_iff {text : String} {line : Nat} {ts : List Token} :
    Lexed ⟨line, 1⟩ text.toList ts ↔ ts = dropOpenEnd (scan text line) := by
  have h : Lexed ⟨line, 1⟩ text.toList (dropOpenEnd (scan text line)) := by
    rw [dropOpenEnd_scan]
    exact lexed_scanUnended line [] text.toList List.not_mem_nil
  exact ⟨fun hts => hts.unique h, fun hts => hts ▸ h⟩

/-- What the rules find are the tokens of a text, and an open line is given an end. -/
theorem Lexed.scan_eq {text : String} {line : Nat} {ts : List Token}
    (h : Lexed ⟨line, 1⟩ text.toList ts) :
    scan text line = ts ++ if text.toList.getLast? = some '\n' then []
      else [⟨.endOfLine, "", .behind line text.toList⟩] := by
  rw [lexed_iff.1 h, dropOpenEnd_scan]
  exact Token.scan_eq text line

/-! ## Two texts around a newline -/

/-- **A newline cuts a text in two.**  The tokens of two texts with a newline between them are those
of the first one, the end of its last line, and those of the second one, which starts a new line.
The rules find the same tokens without looking at lines, for whatever they take ends before a
newline and does not depend on what stands behind it. -/
theorem newline_cuts_scan (text behind : String) (line : Nat) :
    scan (text ++ "\n" ++ behind) line = dropOpenEnd (scan text line) ++
      ⟨.endOfLine, "\n", .behind line text.toList⟩ ::
        (if behind = "" then [] else scan behind (line + newlines text + 1)) ∧
    (∀ whole first ts, Lexed ⟨first, 1⟩ whole.toList ts ↔ ts = dropOpenEnd (scan whole first)) ∧
    (∀ kind p rest, Taken kind p rest → '\n' ∈ p → kind = some .endOfLine ∧ p = ['\n']) ∧
    ∀ kind p rest further, '\n' ∉ p ++ rest →
      (Taken kind p (rest ++ '\n' :: further) ↔ Taken kind p rest) :=
  ⟨scan_append_newline text behind line,
    fun _ _ _ => lexed_iff,
    fun _ _ _ htaken hmem => htaken.eq_newline hmem,
    fun _ _ _ further hline => taken_append_iff hline (.inr ⟨further, rfl⟩)⟩

/-- An open literal with a backslash at the end of its line, and a lone `&` on the next one. -/
theorem newline_cuts_scan_open_literal :
    scan ("kteb \"a\\" ++ "\n" ++ "& // x") 3 =
      [⟨.keyword .kteb, "kteb", ⟨3, 1⟩⟩, ⟨.error '"', "\"a\\", ⟨3, 6⟩⟩,
        ⟨.endOfLine, "\n", ⟨3, 9⟩⟩, ⟨.error '&', "&", ⟨4, 1⟩⟩, ⟨.endOfLine, "", ⟨4, 7⟩⟩] ∧
    Taken (some (.error '"')) ['"', 'a', '\\'] "\n& // x".toList := by
  obtain ⟨hscan, -, -, htaken⟩ := newline_cuts_scan "kteb \"a\\" "& // x" 3
  refine ⟨hscan.trans rfl, ?_⟩
  have hline : Taken (some (.error '"')) ('"' :: ['a', '\\'].take 2) (['a', '\\'].drop 2) :=
    taken_of_pieceAt (by decide) rfl
  exact (htaken _ _ [] "& // x".toList (by decide)).2 hline

end Token

end DarjaLang
