import DarjaLang.Proofs.Newlines
import DarjaLang.Proofs.Token.Scan

/-!
# The texts of tokens

A token is written with characters of its line, and an identifier is named by them
(`writtenWith_of_mem_scanFrom`).  So no token is described with a newline, and no name has one
(`inLine_of_mem_scan`).
-/

set_option autoImplicit false

namespace DarjaLang

namespace Token

/-! ## Pieces -/

/-- An identifier is a word that is reserved for nothing else. -/
theorem eq_of_wordKind {word name : String} (h : wordKind word = .identifier name) :
    name = word := by
  rw [wordKind.eq_def] at h
  split at h <;> cases h
  rfl

/-- An identifier is named by the characters it is written with. -/
theorem name_of_pieceAt {c : Char} {rest : List Char} {name : String} {more : Nat}
    (h : pieceAt c rest = .token (.identifier name) more) :
    name = String.ofList (c :: rest.take more) := by
  obtain ⟨-, hpiece⟩ | ⟨-, hpiece⟩ | hpiece | ⟨kind, more', hpiece, hplain⟩ :=
    pieceAt_cases c rest
  · cases hpiece.symm.trans h
  · cases hpiece.symm.trans h
  · obtain ⟨hkind, rfl⟩ := Piece.token.inj (hpiece.symm.trans h)
    rw [eq_of_wordKind hkind, ← List.prefix_iff_eq_take.1 (List.takeWhile_prefix _)]
  · cases hpiece.symm.trans h
    cases hplain

/-! ## Lines and texts -/

/-- The token is written with some of the characters, and an identifier is named by them. -/
structure WrittenWith (cs : List Char) (t : Token) : Prop where
  lexeme : ∀ c ∈ t.lexeme.toList, c ∈ cs
  name : ∀ name, t.kind = .identifier name → name = t.lexeme

theorem writtenWith_of_mem_scanFrom {place : Position} {skip : Nat} {cs : List Char} {t : Token}
    (ht : t ∈ scanFrom place skip cs) : t.WrittenWith cs := by
  induction cs generalizing place skip with
  | nil => simp [scanFrom] at ht
  | cons c cs ih =>
    have hrest : ∀ {skip}, t ∈ scanFrom ⟨place.line, place.column + 1⟩ skip cs →
        t.WrittenWith (c :: cs) := fun ht =>
      ⟨fun d hd => List.mem_cons_of_mem c ((ih ht).lexeme d hd), (ih ht).name⟩
    cases skip with
    | succ skip => exact hrest ht
    | zero =>
      rw [scanFrom] at ht
      split at ht
      · exact hrest ht
      · next kind more hpiece =>
        rcases List.mem_cons.1 ht with rfl | ht
        · refine ⟨fun d hd => ?_, fun name hkind => name_of_pieceAt (hkind ▸ hpiece)⟩
          rw [String.toList_ofList] at hd
          exact List.cons_subset_cons c (List.take_subset _ _) hd
        · exact hrest ht

/-- Neither the description of the token nor the name of an identifier has a newline. -/
structure InLine (t : Token) : Prop where
  describe : newlines t.describe = 0
  name : ∀ name, t.kind = .identifier name → newlines name = 0

theorem inLine_lineEnd (line : Nat) (cs : List Char) (lexeme : String) :
    (lineEnd line cs lexeme).InLine := by
  refine ⟨?_, nofun⟩
  show newlines "end of line" = 0
  rfl

theorem inLine_of_mem_scanLine {line : Nat} {cs : List Char} (hcs : '\n' ∉ cs) {t : Token}
    (ht : t ∈ scanLine line cs) : t.InLine := by
  have hwritten := writtenWith_of_mem_scanFrom ht
  have hlexeme : newlines t.lexeme = 0 :=
    newlines_eq_zero_iff.2 fun hmem => hcs (hwritten.lexeme _ hmem)
  refine ⟨?_, fun name hkind => by rw [hwritten.name name hkind, hlexeme]⟩
  have hquote : newlines "'" = 0 := rfl
  rw [describe.eq_def]
  split
  · rfl
  · rfl
  · rw [newlines_append, newlines_append, hlexeme, hquote]

theorem inLine_of_mem_scanLines {line : Nat} {read cs : List Char} (hread : '\n' ∉ read)
    {t : Token} (ht : t ∈ scanLines line read cs) : t.InLine := by
  have hcs : '\n' ∉ read.reverse := fun hmem => hread (List.mem_reverse.1 hmem)
  fun_induction scanLines line read cs with
  | case1 line read =>
    rcases List.mem_append.1 ht with ht | ht
    · exact inLine_of_mem_scanLine hcs ht
    · rw [List.mem_singleton.1 ht]
      exact inLine_lineEnd _ _ _
  | case2 line read rest read' ih =>
    rcases List.mem_append.1 ht with ht | ht
    · exact inLine_of_mem_scanLine hcs ht
    rcases List.mem_cons.1 ht with rfl | ht
    · exact inLine_lineEnd _ _ _
    split at ht
    · cases ht
    · exact ih List.not_mem_nil ht List.not_mem_nil
  | case3 line read c rest hc ih =>
    have hread' : '\n' ∉ c :: read := by
      rw [List.mem_cons, not_or]
      exact ⟨fun heq => hc heq.symm, hread⟩
    exact ih hread' ht fun hmem => hread' (List.mem_reverse.1 hmem)

/-- **Tokens do not break lines**, whatever the text is. -/
theorem inLine_of_mem_scan {text : String} {line : Nat} {t : Token} (ht : t ∈ scan text line) :
    t.InLine :=
  inLine_of_mem_scanLines List.not_mem_nil ht

end Token

end DarjaLang
