import DarjaLang.Token.Braces

/-!
# Which braces stay open

* The balance of a token list is at most the number of braces it leaves open; if it is positive,
  there is an outermost open brace (`outermostOpen?_isSome`).
* Every open brace is one of the tokens (`mem_openBraces`).
* `mem_foldl_pushBrace_iff`: the outermost open brace stays open exactly as long as the tokens
  behind it never close as many braces as were left open in front of them.
-/

set_option autoImplicit false

namespace DarjaLang

namespace Token

theorem pushBrace_of_leftBrace {t : Token} (ht : t.kind = .leftBrace) (stack : List Position) :
    pushBrace stack t = t.position :: stack := by
  rw [pushBrace, ht]

theorem pushBrace_of_rightBrace {t : Token} (ht : t.kind = .rightBrace) (stack : List Position) :
    pushBrace stack t = stack.tail := by
  rw [pushBrace, ht]

theorem pushBrace_of_ne {t : Token} (hleft : t.kind ≠ .leftBrace) (hright : t.kind ≠ .rightBrace)
    (stack : List Position) : pushBrace stack t = stack := by
  rw [pushBrace]
  split
  · contradiction
  · contradiction
  · rfl

theorem weight_of_leftBrace {t : Token} (ht : t.kind = .leftBrace) : t.weight = 1 := by
  rw [weight, ht]

theorem weight_of_rightBrace {t : Token} (ht : t.kind = .rightBrace) : t.weight = -1 := by
  rw [weight, ht]

theorem weight_of_ne {t : Token} (hleft : t.kind ≠ .leftBrace) (hright : t.kind ≠ .rightBrace) :
    t.weight = 0 := by
  rw [weight]
  split
  · contradiction
  · contradiction
  · rfl

theorem weight_of_keyword {t : Token} {word : Keyword} (ht : t.kind = .keyword word) :
    t.weight = 0 := by
  rw [weight, ht]

/-- A token is an opening brace, a closing brace or neither. -/
theorem brace_cases (t : Token) :
    t.kind = .leftBrace ∨ t.kind = .rightBrace ∨ t.kind ≠ .leftBrace ∧ t.kind ≠ .rightBrace := by
  by_cases hleft : t.kind = .leftBrace
  · exact .inl hleft
  by_cases hright : t.kind = .rightBrace
  · exact .inr (.inl hright)
  · exact .inr (.inr ⟨hleft, hright⟩)

/-- Closing braces without a partner make the balance smaller than the stack. -/
theorem balance_le_length_foldl (stack : List Position) (ts : List Token) :
    stack.length + balance ts ≤ (ts.foldl pushBrace stack).length := by
  induction ts generalizing stack with
  | nil => simp
  | cons t ts ih =>
    have ih := ih (pushBrace stack t)
    rw [List.foldl_cons, balance_cons]
    rcases brace_cases t with ht | ht | ⟨hleft, hright⟩
    · rw [pushBrace_of_leftBrace ht] at ih ⊢
      rw [weight_of_leftBrace ht]
      simp only [List.length_cons] at ih
      omega
    · rw [pushBrace_of_rightBrace ht] at ih ⊢
      rw [weight_of_rightBrace ht]
      simp only [List.length_tail] at ih
      omega
    · rw [pushBrace_of_ne hleft hright] at ih ⊢
      rw [weight_of_ne hleft hright]
      omega

theorem balance_le_length_openBraces (ts : List Token) : balance ts ≤ (openBraces ts).length := by
  have h := balance_le_length_foldl [] ts
  rw [List.length_nil] at h
  rw [openBraces]
  omega

/-- Tokens that open more braces than they close leave one open. -/
theorem outermostOpen?_isSome {ts : List Token} (h : 0 < balance ts) :
    (outermostOpen? ts).isSome = true := by
  have hlength := balance_le_length_openBraces ts
  rw [outermostOpen?, List.getLast?_isSome]
  intro hnil
  rw [hnil, List.length_nil] at hlength
  omega

/-- An open brace was open before or is one of the tokens. -/
theorem mem_foldl_pushBrace {stack : List Position} {ts : List Token} {p : Position}
    (h : p ∈ ts.foldl pushBrace stack) :
    p ∈ stack ∨ ∃ t ∈ ts, t.kind = .leftBrace ∧ t.position = p := by
  induction ts generalizing stack with
  | nil => exact .inl h
  | cons t ts ih =>
    rw [List.foldl_cons] at h
    rcases ih h with h | ⟨u, hu, hk, hp⟩
    · rcases brace_cases t with ht | ht | ⟨hleft, hright⟩
      · rw [pushBrace_of_leftBrace ht] at h
        rcases List.mem_cons.1 h with rfl | h
        · exact .inr ⟨t, List.mem_cons_self, ht, rfl⟩
        · exact .inl h
      · rw [pushBrace_of_rightBrace ht] at h
        exact .inl (List.mem_of_mem_tail h)
      · rw [pushBrace_of_ne hleft hright] at h
        exact .inl h
    · exact .inr ⟨u, List.mem_cons_of_mem t hu, hk, hp⟩

theorem mem_openBraces {ts : List Token} {p : Position} (h : p ∈ openBraces ts) :
    ∃ t ∈ ts, t.kind = .leftBrace ∧ t.position = p :=
  (mem_foldl_pushBrace h).resolve_left List.not_mem_nil

/-- The outermost brace is still open behind some tokens exactly if no part of them has closed as
many braces more than it has opened as were open before. -/
theorem mem_foldl_pushBrace_iff {inner : List Position} {outermost : Position} {ts : List Token}
    (hts : ∀ t ∈ ts, t.position ≠ outermost) :
    outermost ∈ ts.foldl pushBrace (inner ++ [outermost]) ↔
      ∀ seen, seen <+: ts → 0 < ((inner ++ [outermost]).length : Int) + balance seen := by
  induction ts generalizing inner with
  | nil => simp
  | cons t ts ih =>
    have ih := fun stack => @ih stack fun u hu => hts u (List.mem_cons_of_mem t hu)
    -- A part of the tokens is empty, or it has the first token in front.
    have hprefix : ∀ n : Int, 0 < n → ((∀ seen, seen <+: t :: ts → 0 < n + balance seen) ↔
        ∀ seen, seen <+: ts → 0 < n + t.weight + balance seen) := by
      intro n hn
      constructor
      · intro h seen hseen
        have hpos := h (t :: seen) ((List.prefix_cons_inj t).2 hseen)
        rw [balance_cons] at hpos
        omega
      · intro h seen hseen
        rcases List.prefix_cons_iff.1 hseen with rfl | ⟨later, rfl, hlater⟩
        · rw [balance_nil]
          omega
        · have hpos := h later hlater
          rw [balance_cons]
          omega
    have hpos : 0 < ((inner ++ [outermost]).length : Int) := by simp
    rw [List.foldl_cons, hprefix _ hpos]
    rcases brace_cases t with ht | ht | ⟨hleft, hright⟩
    · rw [pushBrace_of_leftBrace ht, weight_of_leftBrace ht, ← List.cons_append, ih]
      simp
    · rw [pushBrace_of_rightBrace ht, weight_of_rightBrace ht]
      cases inner with
      | nil =>
        -- The outermost brace is closed, and no later one stands in its place.
        constructor
        · intro hmem
          rcases mem_foldl_pushBrace hmem with hmem | ⟨u, hu, -, hp⟩
          · cases hmem
          · exact absurd hp (hts u (List.mem_cons_of_mem t hu))
        · intro h
          have hpos := h [] List.nil_prefix
          simp at hpos
      | cons p inner =>
        have hlength : ((p :: inner ++ [outermost]).length : Int) + -1 =
            (inner ++ [outermost]).length := by
          rw [List.cons_append, List.length_cons]
          omega
        rw [hlength, List.cons_append, List.tail_cons, ih]
    · rw [pushBrace_of_ne hleft hright, weight_of_ne hleft hright, ih]
      simp

end Token

end DarjaLang
