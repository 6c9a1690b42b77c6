import DarjaLang.Proofs.Newlines
import Mathlib.Data.List.DropRight

/-!
# Places behind texts

Where the character behind a text stands, told in two ways.

* `Position.after` walks over the text character by character, from any place.
* `Position.behind` counts the newlines of the text and the characters behind the last of them.
* `after_eq_behind`: from the beginning of a line both lead to the same place.
* `Position.Before` is the order in which places follow each other in a text.
-/

set_option autoImplicit false

namespace DarjaLang

namespace Position

/-- The place behind a character. -/
def step (p : Position) (c : Char) : Position :=
  if c = '\n' then ⟨p.line + 1, 1⟩ else ⟨p.line, p.column + 1⟩

/-- The place behind a text. -/
def after (p : Position) (cs : List Char) : Position := cs.foldl step p

@[simp] theorem after_nil (p : Position) : p.after [] = p := rfl

@[simp] theorem after_append (p : Position) (cs ds : List Char) :
    p.after (cs ++ ds) = (p.after cs).after ds :=
  List.foldl_append

theorem after_cons (p : Position) (c : Char) (cs : List Char) :
    p.after (c :: cs) = (p.step c).after cs := rfl

theorem after_newline (p : Position) (cs : List Char) :
    p.after ('\n' :: cs) = (⟨p.line + 1, 1⟩ : Position).after cs := rfl

theorem after_cons_of_ne {c : Char} (h : c ≠ '\n') (p : Position) (cs : List Char) :
    p.after (c :: cs) = (⟨p.line, p.column + 1⟩ : Position).after cs := by
  rw [after_cons, step, if_neg h]

/-- Without newlines a text moves on by its length. -/
theorem after_of_no_newline {cs : List Char} (h : '\n' ∉ cs) (p : Position) :
    p.after cs = ⟨p.line, p.column + cs.length⟩ := by
  induction cs generalizing p with
  | nil => rfl
  | cons c cs ih =>
    rw [List.mem_cons, not_or] at h
    rw [after_cons_of_ne (Ne.symm h.1), ih h.2, List.length_cons]
    simp [Nat.add_assoc, Nat.add_comm 1]

/-- The place behind a text that starts a line: the newlines in the text lead to its last line, and
the column counts what stands on that one. -/
def behind (line : Nat) (cs : List Char) : Position :=
  ⟨line + cs.count '\n', 1 + (cs.rtakeWhile (· != '\n')).length⟩

/-- Counting leads to the same place as walking. -/
theorem after_eq_behind (line : Nat) (cs : List Char) :
    (⟨line, 1⟩ : Position).after cs = behind line cs := by
  induction cs using List.reverseRecOn with
  | nil => rfl
  | append_singleton cs c ih =>
    rw [after_append, ih, after_cons, after_nil, step, behind, behind, List.rtakeWhile_concat,
      List.count_append]
    by_cases hc : c = '\n' <;> simp [hc, Nat.add_assoc]

/-! ## The order of places -/

/-- An earlier line, or the same line further left. -/
def Before (p q : Position) : Prop := p.line < q.line ∨ p.line = q.line ∧ p.column < q.column

theorem Before.trans {p q r : Position} (hpq : p.Before q) (hqr : q.Before r) : p.Before r := by
  unfold Before at *
  omega

theorem not_before_self (p : Position) : ¬p.Before p := by
  unfold Before
  omega

theorem before_step (p : Position) (c : Char) : p.Before (p.step c) := by
  unfold step Before
  split <;> simp

/-- Every text leads on. -/
theorem before_after {cs : List Char} (h : cs ≠ []) (p : Position) : p.Before (p.after cs) := by
  induction cs generalizing p with
  | nil => exact absurd rfl h
  | cons c cs ih =>
    rcases cs with _ | ⟨d, cs⟩
    · exact before_step p c
    · exact (before_step p c).trans (ih (List.cons_ne_nil d cs) (p.step c))

end Position

end DarjaLang
