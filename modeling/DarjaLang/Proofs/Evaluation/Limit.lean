import DarjaLang.Proofs.Evaluation.Loop

/-!
# Limits on loops

A limit only cuts an evaluation short, it never changes it.

* `Statement.Cut f f'` says that `f` is `f'`, perhaps cut short: unless it ends at the limit, it has
  the outcome of `f'`, and in any case no line is printed that `f'` does not print as well.  With
  the same bound, the evaluation under a tighter limit is the one under a looser limit cut short
  (`cut_run`).
* `Comes.looser` and `Passes.looser` carry the runs of loops from a tighter limit to a looser one.
* `limit_cuts_short` is the result.
-/

set_option autoImplicit false

namespace DarjaLang

/-- The evaluation has ended because a loop has reached its limit. -/
def Outcome.IsLimited (o : Outcome) : Prop :=
  ∃ n position, o.result = .error ⟨.iterationLimit n, position⟩

/-- A loop may pass through its body at least `n` times. -/
def Allows (limit : Option UInt64) (n : UInt64) : Prop := ∀ m ∈ limit, n ≤ m

/-- The second limit lets a loop go on wherever the first one does. -/
def Looser (limit limit' : Option UInt64) : Prop :=
  ∀ {count}, reachedLimit? limit count = none → reachedLimit? limit' count = none

theorem Allows.looser {limit : Option UInt64} {n : UInt64} (h : Allows limit n) :
    Looser (some n) limit := by
  intro count hcount
  rw [reachedLimit?_eq_none_iff] at hcount ⊢
  intro m hm
  exact Nat.lt_of_lt_of_le (hcount n rfl) (UInt64.le_iff_toNat_le.1 (h m hm))

namespace Statement

variable {limit limit' : Option UInt64} {n : UInt64} {bound count : Nat} {position : Position}
  {condition : Expr} {f f' g g' : State → Option Outcome} {st inner : Statement}
  {body : List Statement} {s s' : State} {o o' : Outcome}

/-! ## Cutting short -/

/-- No printed line is taken back. -/
def Grows (f : State → Option Outcome) : Prop :=
  ∀ s o, f s = some o → s.printed.toList <+: o.state.printed.toList

/-- The first evaluation is the second one, unless it is cut short by the limit. -/
structure Cut (f f' : State → Option Outcome) : Prop where
  same : ∀ {s o}, f s = some o → ¬ o.IsLimited → f' s = some o
  printed : ∀ {s o o'}, f s = some o → f' s = some o' →
    o.state.printed.toList <+: o'.state.printed.toList
  grows : Grows f'

theorem Cut.of_grows (hf : Grows f) : Cut f f where
  same h _ := h
  printed h h' := by
    rw [h] at h'
    cases h'
    exact List.prefix_rfl
  grows := hf

theorem grows_iff_moves :
    Grows f ↔ Moves (fun s s' => s.printed.toList <+: s'.printed.toList) f := .rfl

theorem grows_skip : Grows skip := grows_iff_moves.2 (moves_skip fun _ => List.prefix_rfl)

theorem grows_stopAt (n : UInt64) (position : Position) : Grows (stopAt n position) :=
  grows_iff_moves.2 (moves_stopAt (fun _ => List.prefix_rfl) n position)

/-- The limit may cut off any evaluation. -/
theorem Cut.stopAt (hf : Grows f) (n : UInt64) (position : Position) :
    Cut (stopAt n position) f where
  same h hne := by
    cases h
    exact absurd ⟨n, position, rfl⟩ hne
  printed h h' := by
    cases h
    exact hf _ _ h'
  grows := hf

theorem cut_none : Cut (fun _ => none) (fun _ => none) := .of_grows fun _ _ h => by cases h

theorem Grows.andThen (hf : Grows f) (hg : Grows g) : Grows (andThen f g) :=
  grows_iff_moves.2 (.andThen List.IsPrefix.trans (grows_iff_moves.1 hf) (grows_iff_moves.1 hg))

theorem Grows.choose (condition : Expr) (hf : Grows f) (hg : Grows g) :
    Grows (choose condition f g) :=
  grows_iff_moves.2
    (.choose (fun _ => List.prefix_rfl) condition (grows_iff_moves.1 hf) (grows_iff_moves.1 hg))

theorem Cut.andThen (hf : Cut f f') (hg : Cut g g') : Cut (andThen f g) (andThen f' g') where
  same h hne := by
    rcases andThen_eq_some h with ⟨v, s₁, hfirst, hrest⟩ | ⟨hstop, hstops⟩
    · rw [andThen_of_next (hf.same hfirst (by rintro ⟨_, _, h⟩; cases h))]
      exact hg.same hrest hne
    · exact andThen_of_stops (hf.same hstop hne) hstops
  printed {s o o'} h h' := by
    rcases andThen_eq_some h with ⟨v, s₁, hfirst, hrest⟩ | ⟨hstop, -⟩
    · rw [andThen_of_next (hf.same hfirst (by rintro ⟨_, _, h⟩; cases h))] at h'
      exact hg.printed hrest h'
    -- The limit may have cut off the second evaluation, which prints more.
    · rcases andThen_eq_some h' with ⟨v, s₁, hfirst, hrest⟩ | ⟨hstop', -⟩
      · exact (hf.printed hstop hfirst).trans (hg.grows _ _ hrest)
      · exact hf.printed hstop hstop'
  grows := hf.grows.andThen hg.grows

theorem Cut.choose (condition : Expr) (hf : Cut f f') (hg : Cut g g') :
    Cut (choose condition f g) (choose condition f' g') where
  same h hne := by
    rcases choose_eq_some h with ⟨e, hfails, rfl⟩ | ⟨hholds, h⟩ | ⟨hholds, h⟩
    · exact choose_of_error hfails
    · rw [choose_of_true hholds]
      exact hf.same h hne
    · rw [choose_of_false hholds]
      exact hg.same h hne
  printed h h' := by
    rcases choose_eq_some h with ⟨e, hfails, rfl⟩ | ⟨hholds, h⟩ | ⟨hholds, h⟩
    · rw [choose_of_error hfails] at h'
      cases h'
      exact List.prefix_rfl
    · rw [choose_of_true hholds] at h'
      exact hf.printed h h'
    · rw [choose_of_false hholds] at h'
      exact hg.printed h h'
  grows := hf.grows.choose condition hg.grows

theorem Cut.runLoop (hlooser : Looser limit limit') (hf : Cut f f') :
    Cut (runLoop limit position condition f bound count)
      (runLoop limit' position condition f' bound count) := by
  induction bound generalizing count with
  | zero => exact cut_none
  | succ bound ih =>
    have hpass := hf.andThen (@ih (count + 1))
    rw [runLoop_succ, runLoop_succ]
    refine .choose condition ?_ (.of_grows grows_skip)
    cases hlimit : reachedLimit? limit count with
    | none =>
      rw [hlooser hlimit]
      exact hpass
    | some n =>
      refine .stopAt ?_ n position
      cases reachedLimit? limit' count with
      | none => exact hpass.grows
      | some m => exact grows_stopAt m position

theorem congruent_cut (hlooser : Looser limit limit') (bound : Nat) :
    Congruent limit limit' bound bound Cut where
  skip := .of_grows grows_skip
  andThen := .andThen
  choose condition _ _ _ _ := .choose condition
  loop _ _ _ _ hf := hf.runLoop hlooser

theorem grows_of_isSimple (hsimple : st.IsSimple) : Grows (run limit bound st) := by
  intro s o h
  obtain ⟨o', hrun, hprinted, -⟩ := run_of_isSimple hsimple s
  cases h.symm.trans hrun
  exact hprinted

theorem cut_of_isSimple (hsimple : st.IsSimple) :
    Cut (run limit bound st) (run limit' bound st) := by
  rw [run_eq_of_isSimple hsimple limit limit' bound bound]
  exact .of_grows (grows_of_isSimple hsimple)

/-- **With the same bound, the evaluation under a tighter limit is the one under a looser limit, or
it is cut short.** -/
theorem cut_run (hlooser : Looser limit limit') (bound : Nat) (st : Statement) :
    Cut (run limit bound st) (run limit' bound st) :=
  (builtOf_simple st).related (congruent_cut hlooser bound) fun _ => cut_of_isSimple

/-! ## Looser limits -/

theorem Evaluates.looser (hlooser : Looser limit limit') (h : Evaluates limit st s o)
    (hne : ¬ o.IsLimited) : Evaluates limit' st s o := by
  obtain ⟨bound, h⟩ := h
  exact ⟨bound, (cut_run hlooser bound st).same h hne⟩

theorem Completes.looser (hlooser : Looser limit limit') (h : Completes limit body s s') :
    Completes limit' body s s' := by
  obtain ⟨bound, h⟩ := h
  have hcut := (congruent_cut hlooser bound).runBlock fun st (_ : st ∈ body) =>
    cut_run hlooser bound st
  exact ⟨bound, hcut.same h (by rintro ⟨_, _, h⟩; cases h)⟩

theorem Passes.looser (hlooser : Looser limit limit')
    (h : Passes limit condition body count s s') : Passes limit' condition body count s s' := by
  induction h with
  | zero => exact .zero
  | succ _ hholds hlimit hbody ih =>
    exact ih.succ hholds (hlooser hlimit) (hbody.looser hlooser)

theorem Comes.looser (hlooser : Looser limit limit') (h : Comes limit st s inner s') :
    Comes limit' st s inner s' := by
  induction h with
  | here => exact .here
  | conditional hchosen hbefore _ ih => exact .conditional hchosen (hbefore.looser hlooser) ih
  | loop hpasses hholds hlimit hbefore _ ih =>
    exact .loop (hpasses.looser hlooser) hholds (hlooser hlimit) (hbefore.looser hlooser) ih

theorem HoldsAfter.looser (hlooser : Looser limit limit') (h : HoldsAfter limit st s count) :
    HoldsAfter limit' st s count := by
  obtain ⟨condition, body, position, s₀, s₁, hcomes, hpasses, hholds⟩ := h
  exact ⟨condition, body, position, s₀, s₁, hcomes.looser hlooser, hpasses.looser hlooser, hholds⟩

/-- An evaluation that is cut short has printed the beginning of what it would have printed. -/
theorem Evaluates.printed_prefix (hlooser : Looser limit limit') (h : Evaluates limit st s o)
    (h' : Evaluates limit' st s o') : o.state.printed.toList <+: o'.state.printed.toList := by
  obtain ⟨bound, h⟩ := h
  obtain ⟨bound', h'⟩ := h'
  exact (cut_run hlooser (max bound bound') st).printed
    (run_mono (Nat.le_max_left bound bound') h) (run_mono (Nat.le_max_right bound bound') h')

/-- An evaluation that ends at the limit has come to a loop that has used it up. -/
theorem Evaluates.holdsAfter {n m : UInt64} (h : Evaluates (some n) st s o)
    (ho : o.result = .error ⟨.iterationLimit m, position⟩) :
    m = n ∧ HoldsAfter (some n) st s n.toNat := by
  obtain ⟨bound, h⟩ := h
  obtain ⟨result, s'⟩ := o
  cases ho
  obtain ⟨hlimit, condition, body, s₀, hcomes, hpasses, hholds⟩ := exists_run_of_limit h
  cases hlimit
  exact ⟨rfl, condition, body, position, s₀, s', hcomes, hpasses, hholds⟩

/-- **The limit on loops only cuts an evaluation short.**  With a limit `n` every evaluation ends.
If it does not end at the limit, it ends in the same way under every limit that allows as much, and
without one.  If it ends at the limit, the condition of some loop has held after exactly `n`
executions of its body, and the printed lines are the first of those that a looser limit leads to.
And if without a limit no loop executes its body more than `n` times, the limit changes nothing. -/
theorem limit_cuts_short (st : Statement) (s : State) (n : UInt64) :
    (∃ o, Evaluates (some n) st s o ∧ ∀ o', Evaluates (some n) st s o' → o' = o) ∧
    (∀ o, Evaluates (some n) st s o →
      (¬ o.IsLimited → ∀ limit, Allows limit n → ∀ o', Evaluates limit st s o' ↔ o' = o) ∧
      ∀ m position, o.result = .error ⟨.iterationLimit m, position⟩ →
        m = n ∧ HoldsAfter (some n) st s n.toNat ∧
          ∀ limit, Allows limit n → ∀ o', Evaluates limit st s o' →
            o.state.printed.toList <+: o'.state.printed.toList) ∧
    ∀ o, Evaluates none st s o → LoopsWithin none st s n.toNat → Evaluates (some n) st s o := by
  have hnone : Allows none n := nofun
  refine ⟨?_, fun o h => ⟨fun hne limit hlimit o' => ?_, fun m position ho => ?_⟩,
    fun o h hwithin => ?_⟩
  · obtain ⟨o, ho⟩ := exists_evaluates n st s
    exact ⟨o, ho, fun o' ho' => ho.unique ho'⟩
  · have h' := h.looser hlimit.looser hne
    exact ⟨fun ho' => h'.unique ho', fun ho' => ho' ▸ h'⟩
  · obtain ⟨rfl, hholds⟩ := h.holdsAfter ho
    exact ⟨rfl, hholds, fun limit hlimit o' h' => h.printed_prefix hlimit.looser h'⟩
  · obtain ⟨o', ho'⟩ := exists_evaluates n st s
    by_cases hlimited : o'.IsLimited
    · obtain ⟨m, position, hm⟩ := hlimited
      have hholds := (ho'.holdsAfter hm).2.looser hnone.looser
      exact absurd (hwithin n.toNat hholds) (Nat.not_succ_le_self n.toNat)
    · rw [h.unique (ho'.looser hnone.looser hlimited)] at ho'
      exact ho'

/-- The loop `mazal sah { kteb sah }`, which never ends. -/
def endlessLoop : Statement :=
  .loop (.literal (.boolean true) ⟨1, 7⟩) [.print [.literal (.boolean true) ⟨1, 18⟩] ⟨1, 13⟩] ⟨1, 1⟩

/-- The endless loop is cut short after two passes, and any looser limit lets it print more. -/
theorem limit_cuts_short_endlessLoop :
    ∃ o, Evaluates (some 2) endlessLoop ⟨.empty, #[]⟩ o ∧ o.state.printed = #["sah", "sah"] ∧
      HoldsAfter (some 2) endlessLoop ⟨.empty, #[]⟩ 2 ∧
      ∀ m, 2 ≤ m → ∀ o', Evaluates (some m) endlessLoop ⟨.empty, #[]⟩ o' →
        ["sah", "sah"] <+: o'.state.printed.toList := by
  have hrun : run (some 2) 3 endlessLoop ⟨.empty, #[]⟩ =
      some ⟨.error ⟨.iterationLimit 2, ⟨1, 1⟩⟩, ⟨.empty, #["sah", "sah"]⟩⟩ := by cbv
  obtain ⟨-, hends, -⟩ := limit_cuts_short endlessLoop ⟨.empty, #[]⟩ 2
  obtain ⟨-, hlimit⟩ := hends _ ⟨3, hrun⟩
  obtain ⟨-, hholds, hprefix⟩ := hlimit 2 ⟨1, 1⟩ rfl
  refine ⟨_, ⟨3, hrun⟩, rfl, hholds, fun m hm o' h' => hprefix (some m) (fun k hk => ?_) o' h'⟩
  cases hk
  exact hm

end Statement

end DarjaLang
