import DarjaLang.Syntax.Parser

/-!
# Other places for the same program

Tokens, trees and complaints carry the places where they stand.  To relocate one of them by a
function on places is to move all of these and to leave everything else alone.

* `Located` are the types whose values can be relocated.
* `Expr.height_relocate`: a tree is as high as before.
-/

set_option autoImplicit false

namespace DarjaLang

/-- Types whose values carry places. -/
class Located (α : Type) where
  /-- The same value with its places moved. -/
  relocate : (Position → Position) → α → α

open Located

variable {α β ε : Type} [Located α] [Located β] [Located ε] {f : Position → Position}

/-! ## Containers -/

instance : Located Unit := ⟨fun _ _ => ()⟩

instance : Located (List α) := ⟨fun f as => as.map (relocate f)⟩

instance : Located (Option α) := ⟨fun f a => a.map (relocate f)⟩

instance : Located (α × β) := ⟨fun f p => (relocate f p.1, relocate f p.2)⟩

/-- What is there and what is missing both carry places. -/
instance : Located (Except ε α) where
  relocate f
    | .error e => .error (relocate f e)
    | .ok a => .ok (relocate f a)

@[simp] theorem relocate_nil : relocate f ([] : List α) = [] := rfl

@[simp] theorem relocate_cons (a : α) (as : List α) :
    relocate f (a :: as) = relocate f a :: relocate f as := rfl

@[simp] theorem relocate_none : relocate f (none : Option α) = none := rfl

@[simp] theorem relocate_some (a : α) : relocate f (some a) = some (relocate f a) := rfl

@[simp] theorem relocate_mk (a : α) (b : β) : relocate f (a, b) = (relocate f a, relocate f b) :=
  rfl

@[simp] theorem relocate_error (e : ε) :
    relocate f (.error e : Except ε α) = .error (relocate f e) := rfl

@[simp] theorem relocate_ok (a : α) : relocate f (.ok a : Except ε α) = .ok (relocate f a) := rfl

/-- One step after another is relocated step by step. -/
theorem relocate_bind {x : Except ε α} {g h : α → Except ε β}
    (hg : ∀ a, x = .ok a → relocate f (g a) = h (relocate f a)) :
    relocate f (x >>= g) = relocate f x >>= h := by
  cases x with
  | error e => rfl
  | ok a => exact hg a rfl

/-! ## Tokens and complaints -/

instance : Located Token := ⟨fun f t => ⟨t.kind, t.lexeme, f t.position⟩⟩

@[simp] theorem relocate_token (kind : Token.Kind) (lexeme : String) (position : Position) :
    relocate f (⟨kind, lexeme, position⟩ : Token) = ⟨kind, lexeme, f position⟩ := rfl

instance {φ : Type} : Located (Diagnostic φ) := ⟨fun f d => ⟨d.cause, f d.position⟩⟩

@[simp] theorem relocate_diagnostic {φ : Type} (cause : φ) (position : Position) :
    relocate f (⟨cause, position⟩ : Diagnostic φ) = ⟨cause, f position⟩ := rfl

/-! ## Expressions -/

mutual

/-- The expression with its places moved. -/
def Expr.relocated (f : Position → Position) : Expr → Expr
  | .literal value position => .literal value (f position)
  | .var name position => .var name (f position)
  | .unary op operand position => .unary op (operand.relocated f) (f position)
  | .binary op left right position =>
    .binary op (left.relocated f) (right.relocated f) (f position)
  | .call name arguments position => .call name (allRelocated f arguments) (f position)

/-- The expressions with their places moved. -/
def Expr.allRelocated (f : Position → Position) : List Expr → List Expr
  | [] => []
  | e :: es => e.relocated f :: allRelocated f es

end

instance : Located Expr := ⟨Expr.relocated⟩

namespace Expr

theorem allRelocated_eq (es : List Expr) : allRelocated f es = relocate f es := by
  induction es with
  | nil => rfl
  | cons e es ih => exact congrArg _ ih

theorem relocate_call (name : String) (arguments : List Expr) (position : Position) :
    relocate f (call name arguments position) =
      call name (relocate f arguments) (f position) := by
  rw [← allRelocated_eq]
  rfl

theorem position_relocate (e : Expr) : (relocate f e).position = f e.position := by
  cases e <;> rfl

mutual

/-- An expression is as high as before. -/
theorem height_relocate : (e : Expr) → (relocate f e).height = e.height
  | .literal _ _ => rfl
  | .var _ _ => rfl
  | .unary op operand position => by
    have ih : (operand.relocated f).height = _ := height_relocate operand
    change (unary op (operand.relocated f) (f position)).height = _
    rw [height, height, ih]
  | .binary op left right position => by
    have ihl : (left.relocated f).height = _ := height_relocate left
    have ihr : (right.relocated f).height = _ := height_relocate right
    change (binary op (left.relocated f) (right.relocated f) (f position)).height = _
    rw [height, height, ihl, ihr]
  | .call name arguments position => by
    rw [relocate_call, height, height, maxHeight_relocate]

theorem maxHeight_relocate : (es : List Expr) → maxHeight (relocate f es) = maxHeight es
  | [] => rfl
  | e :: es => by
    rw [relocate_cons, maxHeight, maxHeight, height_relocate, maxHeight_relocate]

end

end Expr

/-! ## Statements -/

mutual

/-- The statement with its places moved. -/
def Statement.relocated (f : Position → Position) : Statement → Statement
  | .assignment name value position => .assignment name (relocate f value) (f position)
  | .expression value position => .expression (relocate f value) (f position)
  | .print values position => .print (relocate f values) (f position)
  | .conditional branches otherwise position =>
    .conditional (branchesRelocated f branches) (otherwiseRelocated f otherwise) (f position)
  | .loop condition body position =>
    .loop (relocate f condition) (bodyRelocated f body) (f position)
  | .termination position => .termination (f position)
  | .invalid complaint => .invalid (relocate f complaint)

/-- The statements of a body with their places moved. -/
def Statement.bodyRelocated (f : Position → Position) : List Statement → List Statement
  | [] => []
  | st :: body => st.relocated f :: bodyRelocated f body

/-- The branches of a conditional with their places moved. -/
def Statement.branchesRelocated (f : Position → Position) :
    List (Expr × List Statement) → List (Expr × List Statement)
  | [] => []
  | (condition, body) :: branches =>
    (relocate f condition, bodyRelocated f body) :: branchesRelocated f branches

/-- The last body of a conditional, if there is one, with its places moved. -/
def Statement.otherwiseRelocated (f : Position → Position) :
    Option (List Statement) → Option (List Statement)
  | none => none
  | some body => some (bodyRelocated f body)

end

instance : Located Statement := ⟨Statement.relocated⟩

namespace Statement

theorem bodyRelocated_eq (body : List Statement) : bodyRelocated f body = relocate f body := by
  induction body with
  | nil => rfl
  | cons st body ih => exact congrArg _ ih

theorem branchesRelocated_eq (branches : List (Expr × List Statement)) :
    branchesRelocated f branches = relocate f branches := by
  induction branches with
  | nil => rfl
  | cons b branches ih =>
    rw [branchesRelocated, bodyRelocated_eq, ih]
    rfl

theorem relocate_conditional (branches : List (Expr × List Statement))
    (otherwise : Option (List Statement)) (position : Position) :
    relocate f (conditional branches otherwise position) =
      conditional (relocate f branches) (relocate f otherwise) (f position) := by
  change relocated f _ = _
  rw [relocated, branchesRelocated_eq]
  cases otherwise with
  | none => rw [otherwiseRelocated, relocate_none]
  | some body => rw [otherwiseRelocated, bodyRelocated_eq, relocate_some]

theorem relocate_loop (condition : Expr) (body : List Statement) (position : Position) :
    relocate f (loop condition body position) =
      loop (relocate f condition) (relocate f body) (f position) := by
  rw [← bodyRelocated_eq]
  rfl

end Statement

end DarjaLang
