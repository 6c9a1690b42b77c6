import DarjaLang.Proofs.Evaluation.Course
import DarjaLang.Proofs.Syntax.Names

/-!
# What an evaluation changes

An evaluation changes the state by assignments and by printing, and by nothing else.  Whether it
goes on, ends the program or fails, all that it has done before stays, and what fails adds nothing.

* `State.ChangedBy A s s'` says how the states differ if only names in `A` may have been assigned.
  It is a preorder, so it is enough that simple statements keep to it (`changedBy_run`).
* `Statement.changes_only` is the result.  That the state is the one after the simple statements
  that were completed comes from the course of the evaluation.
-/

set_option autoImplicit false

namespace DarjaLang

/-- Some of the names may have been assigned, and lines may have been printed. -/
structure State.ChangedBy (A : String → Prop) (s s' : State) : Prop where
  get?_eq : ∀ name, ¬ A name → s'.env.get? name = s.env.get? name
  contains : ∀ name, s.env.contains name → s'.env.contains name
  printed : s.printed.toList <+: s'.printed.toList

namespace State

variable {A : String → Prop}

theorem ChangedBy.refl (s : State) : ChangedBy A s s :=
  ⟨fun _ _ => rfl, fun _ h => h, List.prefix_rfl⟩

theorem ChangedBy.trans {s s₁ s₂ : State} (h : ChangedBy A s s₁) (h' : ChangedBy A s₁ s₂) :
    ChangedBy A s s₂ where
  get?_eq name hname := (h'.get?_eq name hname).trans (h.get?_eq name hname)
  contains name hname := h'.contains name (h.contains name hname)
  printed := h.printed.trans h'.printed

/-- An assignment leaves all other names alone, and the name it assigns is bound. -/
theorem changedBy_assign (s : State) {name : String} (hname : A name) (v : Value) :
    ChangedBy A s ⟨s.env.assign name v, s.printed⟩ where
  get?_eq other hother := by
    rw [Environment.get?_assign, if_neg]
    rintro rfl
    exact hother hname
  contains other hother := by
    rw [Environment.contains_eq_isSome] at hother ⊢
    rw [Environment.get?_assign]
    split
    · rfl
    · exact hother
  printed := List.prefix_rfl

theorem changedBy_push (s : State) (line : String) :
    ChangedBy A s ⟨s.env, s.printed.push line⟩ where
  get?_eq _ _ := rfl
  contains _ h := h
  printed := by
    rw [Array.toList_push]
    exact List.prefix_append _ _

end State

namespace Statement

open State

variable {limit : Option UInt64} {bound : Nat} {st inner : Statement} {s : State} {o : Outcome}

/-- A simple statement assigns one name, prints one line, or does nothing. -/
theorem changedBy_of_isSimple (hsimple : inner.IsSimple) (hpart : Part inner st) :
    Moves (ChangedBy (st.Assigns ·)) (run limit bound inner) := by
  intro s o h
  cases inner with
  | assignment name value position =>
    rw [run] at h
    split at h
    · cases h
      exact .refl s
    · cases h
      exact changedBy_assign s ⟨value, position, hpart⟩ _
  | print values position =>
    rw [run] at h
    split at h
    · cases h
      exact .refl s
    · cases h
      exact changedBy_push s _
  | expression value position =>
    rw [run] at h
    split at h <;> cases h <;> exact .refl s
  | termination position =>
    rw [run] at h
    cases h
    exact .refl s
  | invalid complaint =>
    rw [run] at h
    cases h
    exact .refl s
  | conditional => exact hsimple.elim
  | loop => exact hsimple.elim

/-- **Only names that are assigned in a statement change, and no line is taken back.** -/
theorem changedBy_run (limit : Option UInt64) (bound : Nat) (st : Statement) :
    Moves (ChangedBy (st.Assigns ·)) (run limit bound st) :=
  (builtOf_simple_parts st).related (congruent_moves ChangedBy.refl .trans limit bound)
    fun _ h => changedBy_of_isSimple h.1 h.2

/-- **What an evaluation changes.**  However it ends, a name that is not assigned in the statement
keeps its value, or stays unbound; a bound name stays bound; and no printed line is taken back.  An
action that fails changes nothing.  The evaluation takes one course, and the state it leaves, also
where it fails, is that of the simple statements completed on this course, in their order. -/
theorem changes_only (h : Evaluates limit st s o) :
    (∀ name, ¬ st.Assigns name → o.state.env.get? name = s.env.get? name) ∧
    (∀ name, s.env.contains name → o.state.env.contains name) ∧
    s.printed.toList <+: o.state.printed.toList ∧
    (∀ e, o.result = .error e → st.IsAction → o.state = s) ∧
    ∃ done work, Steps limit [.statement st] s done work o.state ∧
      Halts limit work o.state o.result ∧
      (∀ inner ∈ done, inner.IsSimple ∧ Part inner st) ∧ Completes limit done s o.state ∧
      ∀ done' work' s' result', Steps limit [.statement st] s done' work' s' →
        Halts limit work' s' result' → done' = done ∧ s' = o.state := by
  obtain ⟨bound, hrun⟩ := h
  have hchanged := changedBy_run limit bound st s o hrun
  obtain ⟨done, work, hsteps, hhalts⟩ := exists_steps ⟨bound, hrun⟩
  refine ⟨hchanged.get?_eq, hchanged.contains, hchanged.printed, fun e he haction => ?_,
    done, work, hsteps, hhalts, hsteps.simple_parts ?_, hsteps.completes,
    fun done' work' s' result' hsteps' hhalts' => ?_⟩
  · refine state_eq_of_isSimple haction.isSimple hrun fun v hv => ?_
    cases he.symm.trans hv
  · exact List.forall_mem_singleton.2 .rfl
  · obtain ⟨hdone, -, hs⟩ := hsteps.unique hhalts hsteps' hhalts'
    exact ⟨hdone, hs⟩

/-- The statement `kteb 6 / (2 - i)`. -/
def printQuotient : Statement :=
  .print [.binary (.arithmetic .divide) (.literal (.integer "6") ⟨1, 20⟩)
    (.binary (.arithmetic .subtract) (.literal (.integer "2") ⟨1, 25⟩) (.var "i" ⟨1, 29⟩) ⟨1, 27⟩)
    ⟨1, 22⟩] ⟨1, 15⟩

/-- The statement `i = i + 1`. -/
def increment : Statement :=
  .assignment "i" (.binary (.arithmetic .add) (.var "i" ⟨2, 5⟩) (.literal (.integer "1") ⟨2, 9⟩)
    ⟨2, 7⟩) ⟨2, 1⟩

/-- The loop `mazal i < 9 { … }` with these two statements. -/
def quotients : Statement :=
  .loop (.binary (.comparison .less) (.var "i" ⟨1, 7⟩) (.literal (.integer "9") ⟨1, 11⟩) ⟨1, 9⟩)
    [printQuotient, increment] ⟨1, 1⟩

theorem eq_of_assigns_quotients {name : String} (h : quotients.Assigns name) : name = "i" := by
  obtain ⟨value, position, h⟩ := h
  rcases h.cases with h | ⟨inner, hinner, hpart⟩
  · cases h
  cases hinner with
  | loop hinner =>
    have hbody : inner = printQuotient ∨ inner = increment := by simpa using hinner
    rcases hpart.cases with rfl | ⟨_, hnone, -⟩
    · rcases hbody with h | h
      · cases h
      · cases h
        rfl
    · rcases hbody with rfl | rfl <;> cases hnone

/-- A state in which the loop fails in its third pass. -/
def beforeQuotients : State := ⟨.ofList [("i", .integer 0), ("x", .integer 7)], #["0"]⟩

/-- Where the loop fails in its third pass, what the first two passes have done stays, and the
statement that fails adds nothing. -/
theorem changes_only_quotients :
    ∃ o, Evaluates none quotients beforeQuotients o ∧
      o.result = .error ⟨.divisionByZero, ⟨1, 22⟩⟩ ∧
      ["0"] <+: o.state.printed.toList ∧ o.state.printed.toList = ["0", "3", "6"] ∧
      o.state.env.get? "i" = some (.integer 2) ∧
      o.state.env.get? "x" = some (.integer 7) ∧ o.state.env.contains "x" ∧
      Completes none [printQuotient, increment, printQuotient, increment] beforeQuotients
        o.state ∧
      ∃ o', Evaluates none printQuotient o.state o' ∧ o'.state = o.state := by
  have hrun : ∃ o, run none 4 quotients beforeQuotients = some o ∧
      o.result = .error ⟨.divisionByZero, ⟨1, 22⟩⟩ ∧ o.state.printed.toList = ["0", "3", "6"] ∧
      o.state.env.get? "i" = some (.integer 2) ∧ ∃ o', run none 0 printQuotient o.state = some o' ∧
        o'.result = .error ⟨.divisionByZero, ⟨1, 22⟩⟩ :=
    ⟨_, rfl, rfl, rfl, rfl, _, rfl, rfl⟩
  have hprint : printQuotient.IsSimple := trivial
  have hincrement : increment.IsSimple := trivial
  have hcourse : ∃ work s₁, Steps none [.statement quotients] beforeQuotients
      [printQuotient, increment, printQuotient, increment] work s₁ ∧
      Halts none work s₁ (.error ⟨.divisionByZero, ⟨1, 22⟩⟩) :=
    ⟨_, _, .step .loop <| .step (.pass rfl rfl) <| .step (.simple hprint ⟨0, rfl⟩) <|
      .step (.simple hincrement ⟨0, rfl⟩) <| .step (.pass rfl rfl) <|
      .step (.simple hprint ⟨0, rfl⟩) <| .step (.simple hincrement ⟨0, rfl⟩) <|
      .step (.pass rfl rfl) .refl, .simple hprint ⟨0, rfl⟩ nofun⟩
  obtain ⟨o, ho, hresult, hprinted, hi, o', ho', hresult'⟩ := hrun
  obtain ⟨work, s₁, hsteps, hhalts⟩ := hcourse
  obtain ⟨hunassigned, hbound, hprefix, -, done, -, -, -, -, hcompletes, hunique⟩ :=
    changes_only ⟨4, ho⟩
  obtain ⟨-, -, -, hfails, -⟩ := changes_only ⟨0, ho'⟩
  obtain ⟨rfl, -⟩ := hunique _ work s₁ _ hsteps hhalts
  have hx : ¬ quotients.Assigns "x" := fun h => absurd (eq_of_assigns_quotients h) (by decide)
  exact ⟨o, ⟨4, ho⟩, hresult, hprefix, hprinted, hi, hunassigned "x" hx, hbound "x" rfl, hcompletes,
    o', ⟨0, ho'⟩, hfails _ hresult' trivial⟩

end Statement

end DarjaLang
