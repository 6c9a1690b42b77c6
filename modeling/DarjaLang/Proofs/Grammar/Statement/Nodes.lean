import DarjaLang.Proofs.Grammar.Statement.Parts

/-!
# The tokens that nodes come from

Every node of a tree is reported at a token that it has been read from.  If it has a name, that
token is the name, and a literal is that token.

* `Token.Heads t node` says that the node comes from the token.
* `Expr.WrittenIn` and `Statement.WrittenIn` say it of all nodes of a tree.  `IsExpr.writtenIn` and
  `IsStatement.writtenIn` are the results for the grammar, `writtenIn_of_ofTokens?` is the result
  for what is read.
-/

set_option autoImplicit false

namespace DarjaLang

/-- The node is reported at the token, and has its name or is what it stands for. -/
structure Token.Heads (t : Token) (node : Expr) : Prop where
  position : t.position = node.position
  name : ∀ name, node.name? = some name → t.kind = .identifier name
  literal : ∀ value position, node = .literal value position → t.kind = value.kind

/-- All nodes of the expression come from the tokens. -/
def Expr.WrittenIn (p : List Token) (e : Expr) : Prop :=
  ∀ node : Expr, node.Within e → ∃ t ∈ p, t.Heads node

/-- The parts of the statement start at some of the tokens, and the nodes of their expressions come
from the tokens. -/
def Statement.WrittenIn (p : List Token) (st : Statement) : Prop :=
  ∀ inner : Statement, inner.Part st →
    (∃ t ∈ p, t.position = inner.position) ∧ ∀ e ∈ inner.expressions, e.WrittenIn p

variable {p q : List Token}

theorem Statement.WrittenIn.intro {st : Statement} (hposition : ∃ t ∈ p, t.position = st.position)
    (hexpressions : ∀ e ∈ st.expressions, e.WrittenIn p)
    (hbody : ∀ inner : Statement, inner.InBodyOf st → inner.WrittenIn p) : st.WrittenIn p := by
  intro inner hinner
  rcases hinner.cases with rfl | ⟨outer, houter, hinner⟩
  · exact ⟨hposition, hexpressions⟩
  · exact hbody outer houter inner hinner

theorem Expr.WrittenIn.mono {e : Expr} (h : e.WrittenIn p) (hpq : p ⊆ q) : e.WrittenIn q := by
  intro node hnode
  obtain ⟨t, ht, hheads⟩ := h node hnode
  exact ⟨t, hpq ht, hheads⟩

theorem Statement.WrittenIn.mono {st : Statement} (h : st.WrittenIn p) (hpq : p ⊆ q) :
    st.WrittenIn q := by
  intro inner hinner
  obtain ⟨⟨t, ht, hposition⟩, hexpressions⟩ := h inner hinner
  exact ⟨⟨t, hpq ht, hposition⟩, fun e he => (hexpressions e he).mono hpq⟩

namespace Grammar

/-! ## Expressions -/

mutual

/-- **The nodes of an expression come from its tokens.** -/
theorem IsExpr.writtenIn {l : Level} {d : Nat} {p : List Token} {e : Expr} :
    IsExpr l d p e → e.WrittenIn p
  | .single _ h => h.writtenIn
  | .binary (t := t) _ _ _ hleft hright _ => by
    intro node hnode
    cases hnode with
    | here => exact ⟨t, by simp, rfl, nofun, nofun⟩
    | left h => exact hleft.writtenIn.mono (fun _ hu => by simp [hu]) node h
    | right h => exact hright.writtenIn.mono (fun _ hu => by simp [hu]) node h
  | .unary (t := t) _ _ h => by
    intro node hnode
    cases hnode with
    | here => exact ⟨t, by simp, rfl, nofun, nofun⟩
    | unary hnode => exact h.writtenIn.mono (fun _ hu => by simp [hu]) node hnode
  | .literal (t := t) ht => by
    intro node hnode
    cases hnode
    exact ⟨t, by simp, rfl, nofun, fun value position heq => by cases heq; exact ht⟩
  | .var (t := t) ht => by
    intro node hnode
    cases hnode
    exact ⟨t, by simp, rfl, fun name hname => by cases hname; exact ht, nofun⟩
  | .call (t := t) ht _ _ _ h => by
    intro node hnode
    cases hnode with
    | here => exact ⟨t, by simp, rfl, fun name hname => by cases hname; exact ht, nofun⟩
    | argument he hnode => exact (h.writtenIn _ he).mono (fun _ hu => by simp [hu]) node hnode
  | .group _ _ _ h => h.writtenIn.mono fun _ hu => by simp [hu]

theorem IsList.writtenIn {d : Nat} {p : List Token} {es : List Expr} :
    IsList d p es → ∀ e ∈ es, e.WrittenIn p
  | .one h => List.forall_mem_singleton.2 h.writtenIn
  | .more h _ hs => List.forall_mem_cons.2
    ⟨h.writtenIn.mono fun _ hu => by simp [hu],
      fun e he => (hs.writtenIn e he).mono fun _ hu => by simp [hu]⟩

theorem IsArguments.writtenIn {d : Nat} {p : List Token} {es : List Expr} :
    IsArguments d p es → ∀ e ∈ es, e.WrittenIn p
  | .none => nofun
  | .some h => h.writtenIn

end

/-! ## Statements -/

mutual

/-- **The parts of a statement start at its tokens**, and the nodes of their expressions come from
them. -/
theorem IsStatement.writtenIn {d : Nat} {p : List Token} {st : Statement} :
    IsStatement d p st → st.WrittenIn p
  | .assignment _ _ h =>
    .intro ⟨_, List.mem_cons_self, rfl⟩
      (List.forall_mem_singleton.2 (h.writtenIn.mono fun _ hu => by simp [hu])) nofun
  | .expression h =>
    .intro ⟨_, List.mem_cons_self, rfl⟩ (List.forall_mem_singleton.2 h.writtenIn) nofun
  | .print _ h =>
    .intro ⟨_, List.mem_cons_self, rfl⟩
      (fun e he => (h.writtenIn e he).mono fun _ hu => by simp [hu]) nofun
  | .conditional _ hcondition hbody hrest => by
    have hblock := hbody.writtenIn
    obtain ⟨hbranches, hotherwise⟩ := hrest.writtenIn
    refine .intro ⟨_, List.mem_cons_self, rfl⟩ (List.forall_mem_map.2 ?_) fun inner hinner => ?_
    · refine List.forall_mem_cons.2 ⟨hcondition.writtenIn.mono fun _ hu => by simp [hu], ?_⟩
      exact fun b hb => (hbranches b hb).1.mono fun _ hu => by simp [hu]
    · cases hinner with
      | branch hb h =>
        rcases List.mem_cons.1 hb with rfl | hb
        · exact (hblock inner h).mono fun _ hu => by simp [hu]
        · exact ((hbranches _ hb).2 inner h).mono fun _ hu => by simp [hu]
      | otherwise h => exact (hotherwise _ rfl inner h).mono fun _ hu => by simp [hu]
  | .loop _ hcondition hbody => by
    have hblock := hbody.writtenIn
    refine .intro ⟨_, List.mem_cons_self, rfl⟩
      (List.forall_mem_singleton.2 (hcondition.writtenIn.mono fun _ hu => by simp [hu]))
      fun inner hinner => ?_
    cases hinner with
    | loop h => exact (hblock inner h).mono fun _ hu => by simp [hu]

theorem IsAlternatives.writtenIn {d : Nat} {p : List Token}
    {branches : List (Expr × List Statement)} {otherwise : Option (List Statement)} :
    IsAlternatives d p branches otherwise →
      (∀ b ∈ branches, b.1.WrittenIn p ∧ ∀ st ∈ b.2, st.WrittenIn p) ∧
        ∀ body ∈ otherwise, ∀ st ∈ body, st.WrittenIn p
  | .none => ⟨nofun, nofun⟩
  | .otherwise _ hbody => by
    have hblock := hbody.writtenIn
    refine ⟨nofun, fun _ heq st hst => ?_⟩
    cases heq
    exact (hblock st hst).mono fun _ hu => by simp [hu]
  | .branch _ _ hcondition hbody hrest => by
    have hblock := hbody.writtenIn
    obtain ⟨hbranches, hotherwise⟩ := hrest.writtenIn
    refine ⟨List.forall_mem_cons.2 ⟨⟨?_, fun st hst => ?_⟩, fun b hb => ⟨?_, fun st hst => ?_⟩⟩,
      fun body heq st hst => ?_⟩
    · exact hcondition.writtenIn.mono fun _ hu => by simp [hu]
    · exact (hblock st hst).mono fun _ hu => by simp [hu]
    · exact (hbranches b hb).1.mono fun _ hu => by simp [hu]
    · exact ((hbranches b hb).2 st hst).mono fun _ hu => by simp [hu]
    · exact (hotherwise body heq st hst).mono fun _ hu => by simp [hu]

theorem IsBlock.writtenIn {d : Nat} {p : List Token} {ss : List Statement} :
    IsBlock d p ss → ∀ st ∈ ss, st.WrittenIn p
  | .braces _ _ _ _ hbody => fun st hst =>
    (hbody.writtenIn st hst).mono fun _ hu => by simp [hu]

theorem IsBody.writtenIn {d : Nat} {p : List Token} {ss : List Statement} :
    IsBody d p ss → ∀ st ∈ ss, st.WrittenIn p
  | .done _ => nofun
  | .last h _ => List.forall_mem_singleton.2 (h.writtenIn.mono fun _ hu => by simp [hu])
  | .line h _ _ hrest => List.forall_mem_cons.2
    ⟨h.writtenIn.mono fun _ hu => by simp [hu],
      fun st hst => (hrest.writtenIn st hst).mono fun _ hu => by simp [hu]⟩

end

/-! ## Lines -/

theorem IsLine.writtenIn {d : Nat} {p : List Token} {st : Statement} :
    IsLine d p st → st.WrittenIn p
  | .sentinel _ => .intro ⟨_, List.mem_cons_self, rfl⟩ nofun nofun
  | .statement h => h.writtenIn

/-- **What is read from some tokens comes from them.** -/
theorem writtenIn_of_ofTokens? {ts : List Token} {st : Statement}
    (h : Statement.ofTokens? ts = .ok st) : st.WrittenIn ts := by
  obtain ⟨before, p, after, hts, -, -, hline⟩ := exists_isLine_of_ofTokens? h
  refine hline.writtenIn.mono fun t ht => ?_
  have hmem : t ∈ beforeInputEnd ts := by simp [hts, ht]
  exact List.takeWhile_subset _ hmem

end Grammar

end DarjaLang
