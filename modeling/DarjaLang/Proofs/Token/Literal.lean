import DarjaLang.Proofs.Token.WrittenOut

/-!
# String literals

A literal may hold any text.  What cannot stand between quotes as it is, is written as a backslash
and a letter, and reading the literal gives the text back.

* `Token.quoted` writes a text as a literal.
* `Token.EscapesKnown` says that each backslash of a literal, read from the left, has something
  behind it that it can stand for.  `exists_unescape?_iff`: this is what it takes to read it.
* `Token.scan_literal` and `Token.scan_print_literal`: the tokens of a literal alone on its line and
  behind `kteb`.
-/

set_option autoImplicit false

namespace DarjaLang

namespace Token

/-! ## Writing a literal -/

/-- A character as it is written in a literal. -/
def escaped : Char → List Char
  | '\n' => ['\\', 'n']
  | '\t' => ['\\', 't']
  | '"' => ['\\', '"']
  | '\\' => ['\\', '\\']
  | c => [c]

/-- The literal with something between its quotes. -/
def literal (body : List Char) : String := String.ofList ('"' :: (body ++ ['"']))

/-- A text as a literal. -/
def quoted (text : String) : String := literal (text.toList.flatMap escaped)

/-- What is written for a character: its escape, or the character itself. -/
theorem escaped_cases (c : Char) :
    (∃ d, escaped c = ['\\', d] ∧ escape? d = some c ∧ d ≠ '\n') ∨
      escaped c = [c] ∧ c ≠ '"' ∧ c ≠ '\\' ∧ c ≠ '\n' := by
  rw [escaped.eq_def]
  split
  · exact .inl ⟨_, rfl, rfl, by decide⟩
  · exact .inl ⟨_, rfl, rfl, by decide⟩
  · exact .inl ⟨_, rfl, rfl, by decide⟩
  · exact .inl ⟨_, rfl, rfl, by decide⟩
  · next hnewline _ hquote hslash => exact .inr ⟨rfl, hquote, hslash, hnewline⟩

theorem isBody_flatMap_escaped (cs : List Char) : IsBody (cs.flatMap escaped) := by
  induction cs with
  | nil => exact .nil
  | cons c cs ih =>
    rw [List.flatMap_cons]
    obtain ⟨d, hc, -, hd⟩ | ⟨hc, hquote, hslash, hnewline⟩ := escaped_cases c
    · rw [hc]
      exact .escaped hd ih
    · rw [hc]
      exact .plain hquote hslash hnewline ih

/-- **A text that is written as a literal is read again.** -/
theorem unescape?_flatMap_escaped (cs : List Char) : unescape? (cs.flatMap escaped) = some cs := by
  induction cs with
  | nil => rfl
  | cons c cs ih =>
    rw [List.flatMap_cons]
    obtain ⟨d, hc, hd, -⟩ | ⟨hc, -, hslash, -⟩ := escaped_cases c
    · simp [hc, unescape?, hd, ih]
    · simp [hc, unescape?, hslash, ih]

theorem literalKind_flatMap_escaped (text : String) :
    literalKind (text.toList.flatMap escaped) = .string text := by
  rw [literalKind, unescape?_flatMap_escaped]
  simp

/-! ## Reading a literal -/

/-- Behind each backslash, read from the left, there is the letter or the mark of an escape. -/
inductive EscapesKnown : List Char → Prop
  | nil : EscapesKnown []
  | plain {c : Char} {cs : List Char} : c ≠ '\\' → EscapesKnown cs → EscapesKnown (c :: cs)
  | escape {c : Char} {cs : List Char} : c ∈ ['n', 't', '"', '\\'] → EscapesKnown cs →
      EscapesKnown ('\\' :: c :: cs)

theorem exists_escape?_iff {c : Char} : (∃ d, escape? c = some d) ↔ c ∈ ['n', 't', '"', '\\'] := by
  rw [escape?.eq_def]
  split <;> simp_all

theorem exists_unescape?_iff {body : List Char} :
    (∃ text, unescape? body = some text) ↔ EscapesKnown body := by
  constructor
  · rintro ⟨text, h⟩
    fun_induction unescape? body generalizing text with
    | case1 => exact .nil
    | case2 => cases h
    | case3 c rest d ds hds hd ih => exact .escape (exists_escape?_iff.1 ⟨d, hd⟩) (ih ds hds)
    | case4 => cases h
    | case5 c rest hend hslash ih =>
      obtain ⟨ds, hds, -⟩ := Option.map_eq_some_iff.1 h
      refine .plain ?_ (ih ds hds)
      rintro rfl
      rcases rest with _ | ⟨d, rest⟩
      · exact hend rfl rfl
      · exact hslash d rest rfl rfl
  · intro h
    induction h with
    | nil => exact ⟨[], rfl⟩
    | @plain c cs hc _ ih =>
      obtain ⟨text, htext⟩ := ih
      exact ⟨c :: text, by simp [unescape?, hc, htext]⟩
    | escape hc _ ih =>
      obtain ⟨text, htext⟩ := ih
      obtain ⟨d, hd⟩ := exists_escape?_iff.2 hc
      exact ⟨d :: text, by simp [unescape?, hd, htext]⟩

/-- A literal is a string if its escapes are known, and an error if they are not. -/
theorem literalKind_cases (body : List Char) :
    (∃ text, EscapesKnown body ∧ literalKind body = .string text) ∨
      ¬EscapesKnown body ∧ literalKind body = .error '"' := by
  rw [← exists_unescape?_iff, literalKind]
  rcases unescape? body with _ | text
  · exact .inr ⟨by simp, rfl⟩
  · exact .inl ⟨_, ⟨text, rfl⟩, rfl⟩

theorem literalKind_eq_string_iff {body : List Char} :
    (∃ text, literalKind body = .string text) ↔ EscapesKnown body := by
  obtain ⟨text, hknown, hkind⟩ | ⟨hunknown, hkind⟩ := literalKind_cases body <;> simp_all

/-! ## The tokens of a literal -/

theorem getLast?_append_literal (front : String) (body : List Char) :
    (front ++ literal body).toList.getLast? = some '"' := by
  rw [String.toList_append, literal, String.toList_ofList, ← List.cons_append, ← List.append_assoc,
    List.getLast?_concat]

section Scan

variable {body : List Char} (h : IsBody body) (line : Nat)
include h

theorem lexed_literal (place : Position) :
    Lexed place ('"' :: (body ++ ['"'])) [⟨literalKind body, literal body, place⟩] := by
  have hlexed : Lexed place ('"' :: (body ++ ['"']) ++ []) _ :=
    .token (.rule (longest_literal h [])) .done
  rwa [List.append_nil] at hlexed

theorem scan_literal :
    scan (literal body) line = [⟨literalKind body, literal body, ⟨line, 1⟩⟩,
      ⟨.endOfLine, "", .behind line (literal body).toList⟩] := by
  have hchars : (literal body).toList = '"' :: (body ++ ['"']) := String.toList_ofList
  have hlexed := lexed_literal h ⟨line, 1⟩
  have hquote := getLast?_append_literal "" body
  rw [String.empty_append] at hquote
  rw [← hchars] at hlexed
  rw [hlexed.scan_eq, hquote, if_neg (by decide)]
  rfl

theorem scan_print_literal :
    scan ("kteb " ++ literal body) line = [⟨.keyword .kteb, "kteb", ⟨line, 1⟩⟩,
      ⟨literalKind body, literal body, ⟨line, 6⟩⟩,
      ⟨.endOfLine, "", .behind line ("kteb " ++ literal body).toList⟩] := by
  have hchars : ("kteb " ++ literal body).toList =
      ['k', 't', 'e', 'b'] ++ ([' '] ++ '"' :: (body ++ ['"'])) := by
    simp [literal]
  have hletters : ['t', 'e', 'b'].all isWordChar = true := rfl
  have hkteb : Rule (some (wordKind (String.ofList ['k', 't', 'e', 'b']))) ['k', 't', 'e', 'b'] :=
    .word rfl (List.all_eq_true.1 hletters)
  have hspace : Longest none [' '] ('"' :: (body ++ ['"'])) :=
    longest_blanks (c := ' ') rfl ('"' :: (body ++ ['"']))
  have hlexed : Lexed ⟨line, 1⟩ (['k', 't', 'e', 'b'] ++ ([' '] ++ '"' :: (body ++ ['"']))) _ :=
    .token (.rule (hkteb.longest (.inr ⟨_, rfl⟩))) (.gap (.rule hspace) (lexed_literal h ⟨line, 6⟩))
  rw [← hchars] at hlexed
  rw [hlexed.scan_eq, getLast?_append_literal, if_neg (by decide)]
  rfl

end Scan

end Token

end DarjaLang
