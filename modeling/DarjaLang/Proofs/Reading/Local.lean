import DarjaLang.Syntax.Parser

/-!
# Readers that look no further than they have to

Most readers have made up their minds before the tokens run out: what they read or complain about
is the same whatever comes behind.

* `Parser.LocalAt C stop seen f ts` says this of a reader `f` and of tokens `ts` that end with
  `stop`, a token that `f` never consumes.  What `f` complains about is one of the tokens, or one
  that was `seen` before them, and the relation `C` says what is complained about it.  The only
  complaint that more tokens may settle is that a block is still open.
* `Parser.Local C stop f` says it of all token lists that end with `stop`.

The readers are put together from a few pieces, and so are the proofs: `LocalAt.bind`,
`LocalAt.lift`, and `LocalAt.cons` and `LocalAt.head` for a reader that goes by the first token.
-/

set_option autoImplicit false

namespace DarjaLang

namespace Parser

variable {α β : Type}

/-- A step after another one fails exactly if one of the two does. -/
theorem bind_eq_error {x : Reading α} {f : α → Reading β} {e : Complaint} :
    (x >>= f) = .error e ↔ x = .error e ∨ ∃ a, x = .ok a ∧ f a = .error e := by
  cases x <;> simp [bind, Except.bind]

/-- The reader leaves `stop` alone and does not look at what comes behind these tokens. -/
structure LocalAt (C : Token → Complaint → Prop) (stop : Token) (seen : Token → Prop)
    (f : List Token → Reading (α × List Token)) (ts : List Token) : Prop where
  ok : ∀ {a rest}, f ts = .ok (a, rest) →
    [stop] <:+ rest ∧ rest <:+ ts ∧ ∀ ys, f (ts ++ ys) = .ok (a, rest ++ ys)
  error : ∀ {e}, f ts = .error e →
    (∃ t, (seen t ∨ t ∈ ts) ∧ C t e) ∧
      (e.cause ≠ .unterminatedBlock → ∀ ys, f (ts ++ ys) = .error e)

/-- The reader leaves `stop` alone and does not look at what comes behind it. -/
def Local (C : Token → Complaint → Prop) (stop : Token)
    (f : List Token → Reading (α × List Token)) : Prop :=
  ∀ ⦃ts⦄, [stop] <:+ ts → ∀ {seen}, LocalAt C stop seen f ts

theorem exists_cons_of_suffix {stop : Token} {ts : List Token} (h : [stop] <:+ ts) :
    ∃ t us, ts = t :: us := by
  cases ts with
  | nil => exact absurd h.length_le (by simp)
  | cons t us => exact ⟨t, us, rfl⟩

/-- Tokens that end with `stop` still do so without a first token that is another one. -/
theorem suffix_of_suffix_cons {stop t : Token} {ts : List Token} (h : [stop] <:+ t :: ts)
    (ht : t.kind ≠ stop.kind) : [stop] <:+ ts := by
  rcases List.suffix_cons_iff.1 h with h | h
  · cases h
    exact absurd rfl ht
  · exact h

variable {C : Token → Complaint → Prop} {stop : Token} {seen : Token → Prop}

namespace LocalAt

variable {f : List Token → Reading (α × List Token)} {ts : List Token}

theorem mono {C' : Token → Complaint → Prop} {seen' : Token → Prop}
    (hC : ∀ t e, C t e → C' t e) (hseen : ∀ t, seen t → seen' t) (h : LocalAt C stop seen f ts) :
    LocalAt C' stop seen' f ts where
  ok := h.ok
  error he := by
    obtain ⟨⟨t, ht, hte⟩, hmore⟩ := h.error he
    exact ⟨⟨t, ht.imp_left (hseen t), hC t _ hte⟩, hmore⟩

theorem know {seen' : Token → Prop} (h : LocalAt C stop seen f ts)
    (hseen : ∀ t, seen t → seen' t) : LocalAt C stop seen' f ts :=
  h.mono (fun _ _ => id) hseen

/-- Reading nothing. -/
theorem pure (hts : [stop] <:+ ts) (a : α) : LocalAt C stop seen (fun ts => .ok (a, ts)) ts where
  ok h := by cases h; exact ⟨hts, List.suffix_rfl, fun _ => rfl⟩
  error h := by cases h

theorem fail {t : Token} {e : Complaint} (ht : seen t) (he : C t e) :
    LocalAt C stop seen (fun _ => (.error e : Reading (α × List Token))) ts where
  ok h := by cases h
  error h := by cases h; exact ⟨⟨t, .inl ht, he⟩, fun _ _ => rfl⟩

/-- Reading one thing behind another. -/
theorem bind {g : α × List Token → Reading (β × List Token)} (hf : LocalAt C stop seen f ts)
    (hg : ∀ a rest, f ts = .ok (a, rest) → [stop] <:+ rest →
      LocalAt C stop seen (fun us => g (a, us)) rest) :
    LocalAt C stop seen (fun ts => f ts >>= g) ts where
  ok h := by
    obtain ⟨⟨a, behind⟩, hfirst, h⟩ := bind_eq_ok.1 h
    obtain ⟨hbehind, hsuffix, hmore⟩ := hf.ok hfirst
    obtain ⟨hrest, hsuffix', hmore'⟩ := (hg a behind hfirst hbehind).ok h
    exact ⟨hrest, hsuffix'.trans hsuffix, fun ys => bind_eq_ok.2 ⟨_, hmore ys, hmore' ys⟩⟩
  error h := by
    rcases bind_eq_error.1 h with h | ⟨⟨a, behind⟩, hfirst, h⟩
    · obtain ⟨hknown, hmore⟩ := hf.error h
      exact ⟨hknown, fun hne ys => bind_eq_error.2 (.inl (hmore hne ys))⟩
    · obtain ⟨hbehind, hsuffix, hmore⟩ := hf.ok hfirst
      obtain ⟨⟨t, ht, hte⟩, hmore'⟩ := (hg a behind hfirst hbehind).error h
      refine ⟨⟨t, ht.imp_right fun ht => hsuffix.subset ht, hte⟩, fun hne ys => ?_⟩
      exact bind_eq_error.2 (.inr ⟨_, hmore ys, hmore' hne ys⟩)

/-- A check that does not depend on the tokens comes first. -/
theorem lift {x : Reading β} {g : β → List Token → Reading (α × List Token)} {t : Token}
    (ht : seen t) (hx : ∀ e, x = .error e → C t e)
    (hg : ∀ b, x = .ok b → LocalAt C stop seen (g b) ts) :
    LocalAt C stop seen (fun ts => x >>= fun b => g b ts) ts := by
  cases hb : x with
  | error e => exact fail ht (hx e hb)
  | ok b => exact hg b hb

/-- The reader goes by the first tokens and reads those behind them in some way. -/
theorem drop {p : List Token} {g : List Token → Reading (α × List Token)}
    (hf : ∀ ys, f (p ++ (ts ++ ys)) = g (ts ++ ys))
    (hg : LocalAt C stop (fun u => seen u ∨ u ∈ p) g ts) :
    LocalAt C stop seen f (p ++ ts) := by
  have hnow : f (p ++ ts) = g ts := by simpa using hf []
  constructor
  · intro a rest h
    rw [hnow] at h
    obtain ⟨hrest, hsuffix, hmore⟩ := hg.ok h
    refine ⟨hrest, hsuffix.trans (List.suffix_append p ts), fun ys => ?_⟩
    rw [List.append_assoc, hf]
    exact hmore ys
  · intro e h
    rw [hnow] at h
    obtain ⟨⟨u, hu, hue⟩, hmore⟩ := hg.error h
    refine ⟨⟨u, ?_, hue⟩, fun hne ys => ?_⟩
    · rw [List.mem_append, ← or_assoc]
      exact hu
    · rw [List.append_assoc, hf]
      exact hmore hne ys

/-- The reader goes by the first tokens and reads all of them in some way. -/
theorem keep {t : Token} {g : List Token → Reading (α × List Token)}
    (hf : ∀ ys, f (t :: (ts ++ ys)) = g (t :: (ts ++ ys)))
    (hg : LocalAt C stop (fun u => seen u ∨ u = t) g (t :: ts)) :
    LocalAt C stop seen f (t :: ts) := by
  have hnow : f (t :: ts) = g (t :: ts) := by simpa using hf []
  constructor
  · intro a rest h
    rw [hnow] at h
    obtain ⟨hrest, hsuffix, hmore⟩ := hg.ok h
    exact ⟨hrest, hsuffix, fun ys => (hf ys).trans (hmore ys)⟩
  · intro e h
    rw [hnow] at h
    obtain ⟨⟨u, hu, hue⟩, hmore⟩ := hg.error h
    refine ⟨⟨u, ?_, hue⟩, fun hne ys => (hf ys).trans (hmore hne ys)⟩
    rcases hu with (hu | rfl) | hu
    · exact .inl hu
    · exact .inr List.mem_cons_self
    · exact .inr hu

/-- The reader goes by the first token and reads the others in some way. -/
theorem cons {t : Token} {g : List Token → Reading (α × List Token)}
    (hf : ∀ us, f (t :: us) = g us) (hg : LocalAt C stop (fun u => seen u ∨ u = t) g ts) :
    LocalAt C stop seen f (t :: ts) :=
  .drop (p := [t]) (fun ys => hf (ts ++ ys)) (hg.know fun _ hu => hu.imp_right List.mem_singleton.2)

/-- The reader goes by the first token and reads all of them in some way. -/
theorem head {t : Token} {g : List Token → Reading (α × List Token)}
    (hf : ∀ us, f (t :: us) = g (t :: us))
    (hg : LocalAt C stop (fun u => seen u ∨ u = t) g (t :: ts)) :
    LocalAt C stop seen f (t :: ts) :=
  .keep (fun ys => hf (ts ++ ys)) hg

end LocalAt

/-- What a reader does with tokens when none has been seen before them. -/
theorem Local.localAt {f : List Token → Reading (α × List Token)} (h : Local C stop f)
    {ts : List Token} (hts : [stop] <:+ ts) : LocalAt C stop (fun _ => False) f ts :=
  h hts

theorem Local.mono {C' : Token → Complaint → Prop} {f : List Token → Reading (α × List Token)}
    (hC : ∀ t e, C t e → C' t e) (h : Local C stop f) : Local C' stop f :=
  fun _ hts _ => (h hts).mono hC fun _ => id

end Parser

end DarjaLang
