import DarjaLang.Proofs.Grammar.Statement.Completeness
import DarjaLang.Proofs.Syntax.Parts

/-!
# What stands inside a statement that has been read

The sentinel and the placeholder of an unreadable line only stand for whole lines.  Whatever is
inside a statement of the grammar does something: it assigns, evaluates or prints, or it is a
conditional or a loop of such statements (`IsStatement.builtOf`).  So a line is the sentinel, could
not be read, or is built of actions (`ofTokens_cases`), and `ofTokens_inside` is what follows for
the bodies of a line.
-/

set_option autoImplicit false

namespace DarjaLang

open Statement

namespace Grammar

mutual

/-- A statement of the grammar is built of actions. -/
theorem IsStatement.builtOf {d : Nat} {p : List Token} {st : Statement} :
    IsStatement d p st → BuiltOf IsAction st
  | .assignment _ _ _ => .leaf trivial
  | .expression _ => .leaf trivial
  | .print _ _ => .leaf trivial
  | .conditional _ _ hbody hrest =>
    .conditional (List.forall_mem_cons.2 ⟨hbody.builtOf, hrest.builtOf.1⟩) hrest.builtOf.2
  | .loop _ _ hbody => .loop hbody.builtOf

theorem IsAlternatives.builtOf {d : Nat} {p : List Token} {branches : List (Expr × List Statement)}
    {otherwise : Option (List Statement)} : IsAlternatives d p branches otherwise →
      (∀ b ∈ branches, ∀ st ∈ b.2, BuiltOf IsAction st) ∧
        ∀ body ∈ otherwise, ∀ st ∈ body, BuiltOf IsAction st
  | .none => ⟨nofun, nofun⟩
  | .otherwise _ hbody => ⟨nofun, fun _ h => by cases h; exact hbody.builtOf⟩
  | .branch _ _ _ hbody hrest =>
    ⟨List.forall_mem_cons.2 ⟨hbody.builtOf, hrest.builtOf.1⟩, hrest.builtOf.2⟩

theorem IsBlock.builtOf {d : Nat} {p : List Token} {ss : List Statement} :
    IsBlock d p ss → ∀ st ∈ ss, BuiltOf IsAction st
  | .braces _ _ _ _ hbody => hbody.builtOf

theorem IsBody.builtOf {d : Nat} {p : List Token} {ss : List Statement} :
    IsBody d p ss → ∀ st ∈ ss, BuiltOf IsAction st
  | .done _ => nofun
  | .last h _ => List.forall_mem_cons.2 ⟨h.builtOf, nofun⟩
  | .line h _ _ hrest => List.forall_mem_cons.2 ⟨h.builtOf, hrest.builtOf⟩

end

/-- A line is the sentinel, could not be read, or is built of actions. -/
theorem ofTokens_cases (ts : List Token) :
    (∃ position, ofTokens ts = .termination position) ∨
      (∃ complaint, ofTokens ts = .invalid complaint) ∨ BuiltOf IsAction (ofTokens ts) := by
  cases hread : ofTokens? ts with
  | error complaint => exact .inr (.inl ⟨complaint, ofTokens_eq_invalid_iff.2 hread⟩)
  | ok st =>
    obtain ⟨_, _, _, -, -, -, hline⟩ := exists_isLine_of_ofTokens? hread
    rw [(ofTokens_valid_iff.2 hread).1]
    cases hline with
    | sentinel ht => exact .inl ⟨_, rfl⟩
    | statement h => exact .inr (.inr h.builtOf)

/-- **No body of a line contains the sentinel or the placeholder of an unreadable line.** -/
theorem ofTokens_inside {ts : List Token} {inner : Statement} (h : Inside inner (ofTokens ts)) :
    inner.IsValid ∧ ∀ position, inner ≠ .termination position := by
  have hsimple : ∀ {outer : Statement}, outer.IsSimple → ¬ Inside inner outer := by
    intro outer houter h
    cases h with
    | body h => cases h <;> exact houter
    | deeper _ h => cases h <;> exact houter
  rcases ofTokens_cases ts with ⟨position, hts⟩ | ⟨complaint, hts⟩ | hts
  · exact absurd h (hsimple (by rw [hts]; trivial))
  · exact absurd h (hsimple (by rw [hts]; trivial))
  · constructor
    · rintro complaint rfl
      cases hts.inside (fun _ => IsAction.isSimple) h with
      | leaf h => exact h
    · rintro position rfl
      cases hts.inside (fun _ => IsAction.isSimple) h with
      | leaf h => exact h

/-- No part of a statement that has been read stands for an unreadable line. -/
theorem isValid_of_part {ts : List Token} {st inner : Statement}
    (h : Statement.ofTokens? ts = .ok st) (hinner : inner.Part st) : inner.IsValid := by
  obtain ⟨hts, hvalid⟩ := ofTokens_valid_iff.2 h
  rcases hinner with rfl | hinner
  · exact hvalid
  · exact (ofTokens_inside (hts.symm ▸ hinner)).1

/-- Besides ends of lines, a line that is the sentinel consists of one token. -/
theorem ofTokens_eq_termination {ts : List Token} {position : Position}
    (h : ofTokens ts = .termination position) :
    ∃ before t after, beforeInputEnd ts = before ++ t :: after ∧ LineEnds before ∧
      LineEnds after ∧ t.kind = .keyword .khlas := by
  obtain ⟨before, p, after, hts, hbefore, hafter, hline⟩ :=
    exists_isLine_of_ofTokens? (ofTokens_valid_iff.1 ⟨h, nofun⟩)
  cases hline with
  | @sentinel t ht => exact ⟨before, t, after, by simp [hts], hbefore, hafter, ht⟩
  | statement h => cases h

end Grammar

end DarjaLang
