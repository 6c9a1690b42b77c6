import DarjaLang.Syntax.Basic

/-!
# What statements and expressions are made of

Only conditionals and loops contain other statements, in the bodies that they have.

* `Expr.Within node e` says that `node` is the expression or a part of it.
* `Statement.InBodyOf` and `Statement.Inside` say that a statement stands in a body of another one,
  and that it does so at any depth.
* `Statement.BuiltOf Leaf st` says that `st` is made of statements with the property `Leaf` by
  conditionals and loops.  It is the induction over statements: its cases speak of all statements
  of a body at once, and `Leaf` says which statements there may be at the bottom.
* `Statement.builtOf_simple`: every statement is built of those that contain no others.
* `Statement.expressions` are the expressions that a statement evaluates itself, and
  `Statement.Part inner st` says that `inner` is the statement or stands inside it.
* `Statement.InBlocks b e st` says that the statement contains the expression inside `b` blocks.
-/

set_option autoImplicit false

namespace DarjaLang

namespace Expr

/-- The name that an expression starts with. -/
def name? : Expr → Option String
  | var name _ | call name _ _ => some name
  | _ => none

/-- The node is the expression or a part of it. -/
inductive Within (node : Expr) : Expr → Prop
  | here : Within node node
  | unary {op : UnaryOperator} {operand : Expr} {position : Position}
      (h : Within node operand) : Within node (.unary op operand position)
  | left {op : BinaryOperator} {left right : Expr} {position : Position}
      (h : Within node left) : Within node (.binary op left right position)
  | right {op : BinaryOperator} {left right : Expr} {position : Position}
      (h : Within node right) : Within node (.binary op left right position)
  | argument {name : String} {arguments : List Expr} {e : Expr} {position : Position}
      (he : e ∈ arguments) (h : Within node e) : Within node (.call name arguments position)

end Expr

namespace Statement

/-- The statement contains no others. -/
def IsSimple : Statement → Prop
  | conditional _ _ _ | loop _ _ _ => False
  | _ => True

/-- The statement contains no others, and it neither ends the program nor stands for a line that
could not be read. -/
def IsAction : Statement → Prop
  | assignment _ _ _ | expression _ _ | print _ _ => True
  | _ => False

theorem IsAction.isSimple {st : Statement} (h : st.IsAction) : st.IsSimple := by
  cases st with
  | conditional => exact h
  | loop => exact h
  | _ => trivial

/-- Besides actions, only the sentinel and unreadable lines contain no other statements. -/
theorem IsSimple.cases {st : Statement} (h : st.IsSimple) :
    st.IsAction ∨ (∃ position, st = termination position) ∨
      ∃ complaint, st = invalid complaint := by
  cases st with
  | assignment | expression | print => exact .inl trivial
  | termination position => exact .inr (.inl ⟨position, rfl⟩)
  | invalid complaint => exact .inr (.inr ⟨complaint, rfl⟩)
  | conditional => exact h.elim
  | loop => exact h.elim

/-- The statement stands in a body of the other one. -/
inductive InBodyOf (inner : Statement) : Statement → Prop
  | branch {branches : List (Expr × List Statement)} {otherwise : Option (List Statement)}
      {position : Position} {b : Expr × List Statement} (hb : b ∈ branches) (h : inner ∈ b.2) :
      InBodyOf inner (.conditional branches otherwise position)
  | otherwise {branches : List (Expr × List Statement)} {body : List Statement}
      {position : Position} (h : inner ∈ body) :
      InBodyOf inner (.conditional branches (some body) position)
  | loop {condition : Expr} {body : List Statement} {position : Position} (h : inner ∈ body) :
      InBodyOf inner (.loop condition body position)

/-- The statement stands in a body of the other one, at any depth. -/
inductive Inside (inner : Statement) : Statement → Prop
  | body {outer : Statement} (h : InBodyOf inner outer) : Inside inner outer
  | deeper {st outer : Statement} (h : Inside inner st) (hst : InBodyOf st outer) :
      Inside inner outer

/-- The statement is built by conditionals and loops of statements with a property. -/
inductive BuiltOf (Leaf : Statement → Prop) : Statement → Prop
  | leaf {st : Statement} (h : Leaf st) : BuiltOf Leaf st
  | conditional {branches : List (Expr × List Statement)} {otherwise : Option (List Statement)}
      {position : Position} (hbranches : ∀ b ∈ branches, ∀ st ∈ b.2, BuiltOf Leaf st)
      (hotherwise : ∀ body ∈ otherwise, ∀ st ∈ body, BuiltOf Leaf st) :
      BuiltOf Leaf (.conditional branches otherwise position)
  | loop {condition : Expr} {body : List Statement} {position : Position}
      (hbody : ∀ st ∈ body, BuiltOf Leaf st) : BuiltOf Leaf (.loop condition body position)

variable {Leaf : Statement → Prop} {inner outer : Statement}

theorem BuiltOf.inBodyOf (h : BuiltOf Leaf outer) (hleaf : ∀ st, Leaf st → st.IsSimple)
    (hinner : InBodyOf inner outer) : BuiltOf Leaf inner := by
  cases h with
  | leaf h =>
    have hsimple := hleaf outer h
    cases hinner <;> exact hsimple.elim
  | conditional hbranches hotherwise =>
    cases hinner with
    | branch hb h => exact hbranches _ hb inner h
    | otherwise h => exact hotherwise _ rfl inner h
  | loop hbody =>
    cases hinner with
    | loop h => exact hbody inner h

/-- What a statement is built of, everything inside it is built of. -/
theorem BuiltOf.inside (h : BuiltOf Leaf outer) (hleaf : ∀ st, Leaf st → st.IsSimple)
    (hinner : Inside inner outer) : BuiltOf Leaf inner := by
  induction hinner with
  | body hinner => exact h.inBodyOf hleaf hinner
  | deeper _ hst ih => exact ih (h.inBodyOf hleaf hst)

mutual

/-- Every statement is built of statements that contain no others. -/
theorem builtOf_simple : (st : Statement) → BuiltOf IsSimple st
  | .assignment _ _ _ => .leaf trivial
  | .expression _ _ => .leaf trivial
  | .print _ _ => .leaf trivial
  | .termination _ => .leaf trivial
  | .invalid _ => .leaf trivial
  | .conditional branches none _ => .conditional (builtOf_simple_branches branches) nofun
  | .conditional branches (some body) _ =>
    .conditional (builtOf_simple_branches branches) fun _ h => by
      cases h
      exact builtOf_simple_body body
  | .loop _ body _ => .loop (builtOf_simple_body body)

theorem builtOf_simple_body : (body : List Statement) → ∀ st ∈ body, BuiltOf IsSimple st
  | [] => nofun
  | st :: body => List.forall_mem_cons.2 ⟨builtOf_simple st, builtOf_simple_body body⟩

theorem builtOf_simple_branches :
    (branches : List (Expr × List Statement)) → ∀ b ∈ branches, ∀ st ∈ b.2, BuiltOf IsSimple st
  | [] => nofun
  | (_, body) :: branches =>
    List.forall_mem_cons.2 ⟨builtOf_simple_body body, builtOf_simple_branches branches⟩

end

/-! ## Expressions of a statement -/

/-- The expressions that a statement evaluates itself. -/
def expressions : Statement → List Expr
  | assignment _ value _ | expression value _ => [value]
  | print values _ => values
  | conditional branches _ _ => branches.map Prod.fst
  | loop condition _ _ => [condition]
  | termination _ | invalid _ => []

/-- The statement is the other one or stands inside it. -/
def Part (inner outer : Statement) : Prop := inner = outer ∨ Inside inner outer

theorem Part.rfl : Part outer outer := .inl (.refl _)

/-- A part of a statement in a body is a part of the whole. -/
theorem Part.of_inBodyOf {st : Statement} (h : Part inner st) (hst : InBodyOf st outer) :
    Part inner outer := by
  rcases h with heq | h
  · cases heq
    exact .inr (.body hst)
  · exact .inr (.deeper h hst)

/-- A statement in a body of a part is a part. -/
theorem InBodyOf.part {st : Statement} (h : InBodyOf inner st) (hst : Part st outer) :
    Part inner outer := by
  rcases hst with rfl | hst
  · exact .inr (.body h)
  · refine .inr ?_
    induction hst with
    | body hst => exact .deeper (.body h) hst
    | deeper _ hst ih => exact .deeper ih hst

/-- A part of a statement is the statement itself or a part of one in a body. -/
theorem Part.cases (h : Part inner outer) :
    inner = outer ∨ ∃ st, InBodyOf st outer ∧ Part inner st := by
  rcases h with heq | h
  · exact .inl heq
  cases h with
  | body h => exact .inr ⟨inner, h, .rfl⟩
  | deeper h hst => exact .inr ⟨_, hst, .inr h⟩

/-- The statement contains the expression, inside so many blocks. -/
inductive InBlocks : (blocks : Nat) → Expr → Statement → Prop
  | own {e : Expr} {st : Statement} (h : e ∈ st.expressions) : InBlocks 0 e st
  | body {b : Nat} {e : Expr} {st outer : Statement} (hst : InBodyOf st outer)
      (h : InBlocks b e st) : InBlocks (b + 1) e outer

/-- The expressions of a part stand inside some blocks of the whole. -/
theorem Part.exists_inBlocks {e : Expr} (h : Part inner outer) (he : e ∈ inner.expressions) :
    ∃ b, InBlocks b e outer := by
  rcases h with rfl | h
  · exact ⟨0, .own he⟩
  induction h with
  | body h => exact ⟨1, .body h (.own he)⟩
  | deeper _ hst ih =>
    obtain ⟨b, hb⟩ := ih
    exact ⟨b + 1, .body hst hb⟩

/-- What a statement is built of has a property if all simple parts of the statement have it. -/
theorem BuiltOf.of_parts (h : BuiltOf IsSimple outer)
    (hleaf : ∀ inner : Statement, Part inner outer → inner.IsSimple → Leaf inner) :
    BuiltOf Leaf outer := by
  induction h with
  | leaf h => exact .leaf (hleaf _ .rfl h)
  | conditional _ _ hbranches hotherwise =>
    refine .conditional (fun b hb st hst => hbranches b hb st hst fun inner hinner => ?_)
      fun body hbody st hst => hotherwise body hbody st hst fun inner hinner => ?_
    · exact hleaf inner (hinner.of_inBodyOf (.branch hb hst))
    · cases hbody
      exact hleaf inner (hinner.of_inBodyOf (.otherwise hst))
  | loop _ hbody =>
    refine .loop fun st hst => hbody st hst fun inner hinner => ?_
    exact hleaf inner (hinner.of_inBodyOf (.loop hst))

/-- Every statement is built of its simple parts. -/
theorem builtOf_simple_parts (st : Statement) :
    BuiltOf (fun inner => inner.IsSimple ∧ Part inner st) st :=
  (builtOf_simple st).of_parts fun _ hinner hsimple => ⟨hsimple, hinner⟩

end Statement

end DarjaLang
