import DarjaLang.Proofs.Evaluation.Loop

/-!
# Where trouble comes from

Whatever goes wrong in the evaluation of a statement, a part of the statement is to blame: a node of
one of its expressions, a loop that has reached its limit, or the placeholder of an unreadable line.

* `Statement.Blames st trouble` says this, and `Statement.blames_of_run` is the result.
-/

set_option autoImplicit false

namespace DarjaLang

namespace Statement

/-- A part of the statement is to blame for the trouble. -/
inductive Blames (st : Statement) : Trouble → Prop
  | expression {inner : Statement} {e : Expr} {trouble : Trouble} (hinner : Part inner st)
      (he : e ∈ inner.expressions) (h : e.Blames trouble) : Blames st trouble
  | limit {condition : Expr} {body : List Statement} {position : Position} {n : UInt64}
      (hinner : Part (.loop condition body position) st) :
      Blames st ⟨.iterationLimit n, position⟩
  | unread {complaint : Diagnostic ParseError} (hinner : Part (.invalid complaint) st) :
      Blames st (complaint.map .unparsed)

variable {limit : Option UInt64} {bound : Nat} {st outer : Statement} {s s' : State} {e : Trouble}

/-- What is to blame in a statement of a body is to blame in the whole. -/
theorem Blames.of_inBodyOf (h : st.Blames e) (hst : InBodyOf st outer) : outer.Blames e := by
  cases h with
  | expression hinner he h => exact .expression (hinner.of_inBodyOf hst) he h
  | limit hinner => exact .limit (hinner.of_inBodyOf hst)
  | unread hinner => exact .unread (hinner.of_inBodyOf hst)

/-- A body that a conditional chooses is one of its bodies. -/
theorem Chosen.inBodyOf {env : Environment} {branches : List (Expr × List Statement)}
    {otherwise : Option (List Statement)} {body : List Statement}
    (h : Chosen env branches otherwise body) (position : Position) :
    ∀ st ∈ body, InBodyOf st (.conditional branches otherwise position) := by
  induction h with
  | branch => exact fun st hst => .branch List.mem_cons_self hst
  | next _ _ ih =>
    intro st hst
    cases ih st hst with
    | branch hb h => exact .branch (List.mem_cons_of_mem _ hb) h
    | otherwise h => exact .otherwise h
  | otherwise => exact fun st hst => .otherwise hst

/-- A statement that contains no others is itself to blame. -/
theorem blames_of_isSimple (h : st.IsSimple)
    (hrun : run limit bound st s = some ⟨.error e, s'⟩) : st.Blames e := by
  rcases h.cases with haction | ⟨position, rfl⟩ | ⟨complaint, rfl⟩
  · rcases run_of_isAction haction s with ⟨e', ⟨x, hx, hblames⟩, hfails⟩ | ⟨v, s₁, hnext, -⟩
    · cases hrun.symm.trans hfails
      exact .expression .rfl hx hblames
    · cases hrun.symm.trans hnext
  · rw [run] at hrun
    cases hrun
  · rw [run] at hrun
    cases hrun
    exact .unread .rfl

/-- **Whatever goes wrong, a part of the statement is to blame.** -/
theorem blames_of_run (hrun : run limit bound st s = some ⟨.error e, s'⟩) : st.Blames e := by
  have hst := builtOf_simple st
  induction hst generalizing s with
  | leaf hsimple => exact blames_of_isSimple hsimple hrun
  | @conditional branches otherwise position _ _ hbranches hotherwise =>
    rw [run_conditional] at hrun
    rcases exists_of_runBranches_error hrun with ⟨b, hb, hblames⟩ | ⟨body, hchosen, hbody⟩
    · exact .expression .rfl (List.mem_map_of_mem hb) hblames
    obtain ⟨before, inner, after, s₁, rfl, -, hinner⟩ := exists_of_runBlock_error hbody
    have hmem : inner ∈ before ++ inner :: after := by simp
    have hblames := hchosen.forall_mem hbranches hotherwise inner hmem hinner
    exact hblames.of_inBodyOf (hchosen.inBodyOf position inner hmem)
  | @loop condition body position _ ih =>
    rw [run_loop] at hrun
    rcases exists_of_runLoop_error .zero hrun with
      hblames | ⟨_, n, -, -, -, rfl⟩ | ⟨_, s₁, -, -, -, hbody⟩
    · exact .expression .rfl (List.mem_singleton_self condition) hblames
    · exact .limit .rfl
    · obtain ⟨before, inner, after, s₂, rfl, -, hinner⟩ := exists_of_runBlock_error hbody
      have hmem : inner ∈ before ++ inner :: after := by simp
      exact (ih inner hmem hinner).of_inBodyOf (.loop hmem)

end Statement

end DarjaLang
