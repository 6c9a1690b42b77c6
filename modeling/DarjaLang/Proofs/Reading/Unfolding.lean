import DarjaLang.Syntax.Statement

/-!
# How the recursive readers unfold

The readers of lists, chains, branches and blocks call themselves on what a parser left over, and
their definitions carry the marks by which Lean sees that this ends.  These equations say the same
without the marks.
-/

set_option autoImplicit false

namespace DarjaLang

namespace Parser

variable {α : Type}

theorem separatedFrom_eq (item : Parser α) (ts : List Token) :
    separatedFrom item ts = (do
      let (a, rest) ← item.run ts
      match rest with
      | [] => .ok ([a], [])
      | t :: behind =>
        match t.kind with
        | .comma => do
          let (as, rest) ← separatedFrom item behind
          return (a :: as, rest)
        | _ => .ok ([a], t :: behind)) := by
  rw [separatedFrom]
  split
  · next hrun => rw [hrun]; rfl
  · next hrun => rw [hrun]; rfl
  · next a t behind hrun =>
    rw [hrun]
    dsimp only [bind, Except.bind]
    cases t.kind with
    | comma => cases separatedFrom item behind <;> rfl
    | _ => rfl

theorem chainFrom_cons (accepts : BinaryOperator → Bool) (operand : Parser Expr) (left : Expr)
    (height : Nat) (t : Token) (behind : List Token) :
    chainFrom accepts operand left height (t :: behind) =
      match t.kind.operator?.filter accepts with
      | none => .ok (left, t :: behind)
      | some op => (do
        let (right, rest) ← operand.run behind
        if maxOperatorHeight < max height right.height + 1 then
          .error ⟨.nestingTooDeep, t.position⟩
        else
          chainFrom accepts operand (.binary op left right t.position)
            (max height right.height + 1) rest) := by
  rw [chainFrom]
  cases t.kind.operator?.filter accepts with
  | none => rfl
  | some op =>
    dsimp only
    split
    · next hrun => rw [hrun]; rfl
    · next hrun => rw [hrun]; rfl

theorem alternatives_cons (branch : Parser (Expr × List Statement))
    (block : Parser (List Statement)) (t : Token) (behind : List Token) :
    alternatives branch block (t :: behind) =
      match t.kind with
      | .keyword .wila =>
        match behind with
        | [] => do
          let (body, rest) ← block.run []
          return (([], some body), rest)
        | u :: behind =>
          match u.kind with
          | .keyword .ila => do
            let (b, rest) ← branch.run behind
            let ((bs, otherwise), rest) ← alternatives branch block rest
            return ((b :: bs, otherwise), rest)
          | _ => do
            let (body, rest) ← block.run (u :: behind)
            return (([], some body), rest)
      | _ => .ok (([], none), t :: behind) := by
  rw [alternatives.eq_def]
  dsimp only
  cases t.kind with
  | keyword word =>
    cases word with
    | wila =>
      cases behind with
      | nil => rfl
      | cons u behind =>
        dsimp only
        cases u.kind with
        | keyword word =>
          cases word with
          | ila =>
            dsimp only
            split
            · next hrun => rw [hrun]; rfl
            · next hrun => rw [hrun]; rfl
          | _ => rfl
        | _ => rfl
    | _ => rfl
  | _ => rfl

theorem blockFrom_eq (item : Parser Statement) (opening : Position) (ts : List Token) :
    blockFrom item opening ts =
      match skipLineEnds ts with
      | [] => .error (unterminated opening)
      | t :: behind =>
        match t.kind with
        | .rightBrace => .ok ([], behind)
        | .endOfInput => .error (unterminated opening)
        | _ => do
          let (s, rest) ← item.run (t :: behind)
          let s ← checkNested s
          checkFollower opening rest
          let (ss, rest) ← blockFrom item opening rest
          return (s :: ss, rest) := by
  rw [blockFrom]
  cases skipLineEnds ts with
  | nil => rfl
  | cons t behind =>
    dsimp only
    cases t.kind with
    | rightBrace => rfl
    | endOfInput => rfl
    | _ =>
      dsimp only
      split
      · next hrun => rw [hrun]; rfl
      · next hrun => rw [hrun]; rfl

end Parser

end DarjaLang
